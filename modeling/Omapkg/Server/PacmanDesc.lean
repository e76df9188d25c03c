import Omapkg.Lib.FieldFile
import Omapkg.Lib.TextEncoder
import Omapkg.Server.ArchCovers
import Omapkg.Wire.Relations
/-!
# Entries of a repository database

The `desc` file that `repositoryDatabaseForPackages` of `src/src/lib/server/repository.ts`
writes of a package. A file of named fields escapes nothing: what the fields hold depends on
the validators of the values. The catalog's validator of a description lets a line end
through.
-/

namespace Omapkg.Server.Desc

open Utf FieldFile Fallible
open Omapkg.Server.Arch (PackageMetadata parsePackageMetadata)
open Omapkg.Server.Owned (ArtifactArchitecture)
open Omapkg.Wire (Graphic graphic_alnum graphic_all graphic_class graphic_version version_all word_all)

/-! ## Validators -/

/-- `v.pipe(v.string(), v.trim(), v.minLength(1), v.maxLength(500))` of a catalog manifest. -/
def catalogDescription (input : JsString) : Option JsString :=
  let value := trim input
  if value.length < 1 ∨ 500 < value.length then none else some value

/-- `[A-Za-z0-9]`. -/
def isAlnumUnit (u : UInt16) : Bool := u < 128 && isAlnum (Char.ofNat u.toNat)

/-- `[A-Za-z0-9.+:-]`. -/
def isLicenseUnit (u : UInt16) : Bool := isAlnumUnit u || u = 0x2E || u = 0x2B || u = 0x3A || u = 0x2D

/-- The tokens of a license expression; `fuel` bounds its units. -/
def licenseTokens : Nat → JsString → Option (List JsString)
  | _, [] => some []
  | 0, _ => none
  | fuel + 1, u :: us =>
    if isJsSpace u then licenseTokens fuel us
    else if u = 0x28 ∨ u = 0x29 then (licenseTokens fuel us).map ([u] :: ·)
    else if isAlnumUnit u then
      (licenseTokens fuel (us.dropWhile isLicenseUnit)).map ((u :: us.takeWhile isLicenseUnit) :: ·)
    else none

/-- `/^[A-Za-z0-9][A-Za-z0-9.+:-]{0,127}$/`. -/
def isLicenseIdentifier : JsString → Bool
  | [] => false
  | u :: us => isAlnumUnit u && us.all isLicenseUnit && us.length ≤ 127

def isOperatorName (token : JsString) : Bool := token = units "AND" || token = units "OR" || token = units "WITH"

/-- One identifier, and the tokens after it. -/
def takeIdentifier : List JsString → Option (List JsString)
  | [] => none
  | token :: rest => if isLicenseIdentifier token = false ∨ isOperatorName token = true then none else some rest

def primary (expression : List JsString → Option (List JsString)) : List JsString → Option (List JsString)
  | [] => none
  | token :: rest =>
    if token = [0x28] then
      match expression rest with
      | some (close :: rest) => if close = [0x29] then some rest else none
      | _ => none
    else takeIdentifier (token :: rest)

def withExpression (expression : List JsString → Option (List JsString)) (tokens : List JsString) :
    Option (List JsString) := do
  match ← primary expression tokens with
  | [] => some []
  | token :: rest => if token = units "WITH" then takeIdentifier rest else some (token :: rest)

/-- Operands between operators of one name. -/
def operands (operator : JsString) (operand : List JsString → Option (List JsString)) :
    Nat → List JsString → Option (List JsString)
  | 0, _ => none
  | fuel + 1, tokens => do
    match ← operand tokens with
    | [] => some []
    | token :: rest => if token = operator then operands operator operand fuel rest else some (token :: rest)

/-- `expression`; `fuel` bounds its tokens. -/
def expression : Nat → List JsString → Option (List JsString)
  | 0, _ => none
  | fuel + 1, tokens =>
    operands (units "OR") (operands (units "AND") (withExpression (expression fuel)) (fuel + 1)) (fuel + 1) tokens

/-- `parseDeclaredLicense`; nothing is a license that does not parse. -/
def parseDeclaredLicense (input : JsString) : Option JsString :=
  let value := trim input
  if value = units "unknown" ∨ value = units "proprietary" then some value
  else if value = [] ∨ 256 < value.length ∨ value.any isControl = true then none
  else do
    let tokens ← licenseTokens value.length value
    match expression (tokens.length + 1) tokens with
    | some [] => some value
    | _ => none

/-! ## The builder -/

structure RepositoryDatabasePackage where
  id : String
  name : String
  version : String
  architecture : ArtifactArchitecture
  artifactSha256 : JsString
  artifactSize : Int
  artifactFilename : JsString
  installedSize : Option Int
  sourceDateEpoch : Int
  license : JsString
  upstreamUrl : JsString
  description : JsString
  metadata : PackageMetadata

/-- `[A-Za-z0-9._+:-]`. -/
def isFilenameChar (c : Char) : Bool := isAlnum c || "._+:-".toList.contains c

/-- `PACKAGE_FILENAME`. -/
def isPackageFilename (s : JsString) : Bool :=
  let suffix := ".pkg.tar.zst".toList
  suffix.isSuffixOf (ascii s) && Arch.isWord isAlnum isFilenameChar 220 ((ascii s).take (s.length - suffix.length))

/-- A safe integer from one on. -/
def isSize (n : Int) : Bool := 1 ≤ n && n ≤ maxSafeInteger

/-- The checks of a package, and the bytes of its signature. -/
def checkPackage (item : RepositoryDatabasePackage) (signature : Option Bytes) : Except PolicyError Bytes :=
  if item.artifactFilename = [] ∨ isPackageFilename item.artifactFilename = false ∨ isSha256 item.artifactSha256 = false ∨
      isSize item.artifactSize = false then
    reject s!"Release {item.id} has incomplete artifact metadata." 409
  else
    match signature with
    | none => reject s!"Release {item.id} has no package signature." 409
    | some bytes =>
      if bytes.length = 0 ∨ 16384 < bytes.length then reject s!"Release {item.id} has invalid package signature." 409
      else if item.installedSize.any (fun size => !isSize size) = true then
        reject s!"Release {item.id} has invalid installed package size." 409
      else .ok bytes

def base64Digit (n : Nat) : Char :=
  if n < 26 then Char.ofNat (65 + n) else if n < 52 then Char.ofNat (71 + n) else if n < 62 then Char.ofNat (n - 4)
  else if n = 62 then '+' else '/'

def base64Chars : Bytes → List Char
  | [] => []
  | [a] => [base64Digit (a.toNat / 4), base64Digit (a.toNat % 4 * 16), '=', '=']
  | [a, b] => [base64Digit (a.toNat / 4), base64Digit (a.toNat % 4 * 16 + b.toNat / 16), base64Digit (b.toNat % 16 * 4), '=']
  | a :: b :: c :: rest =>
    base64Digit (a.toNat / 4) :: base64Digit (a.toNat % 4 * 16 + b.toNat / 16) ::
      base64Digit (b.toNat % 16 * 4 + c.toNat / 64) :: base64Digit (c.toNat % 64) :: base64Chars rest

def base64 (value : Bytes) : JsString := units (String.ofList (base64Chars value))

/-- NUL and line ends as spaces, and the spaces around taken off. -/
def textValue (value : JsString) : JsString := trim (value.map fun u => if u = 0 ∨ u = 0x0D ∨ u = 0x0A then 0x20 else u)

def field (name : String) (values : List JsString) : JsString :=
  units ("%" ++ name ++ "%\n") ++ List.intercalate [0x0A] (values.filter (· ≠ [])) ++ [0x0A, 0x0A]

def number (n : Int) : JsString := units (toString n)

def desc (item : RepositoryDatabasePackage) (signature : Bytes) : JsString :=
  List.flatten [
    field "FILENAME" [item.artifactFilename], field "NAME" [units item.name], field "BASE" [units item.name],
    field "VERSION" [units item.version], field "DESC" [item.description], field "CSIZE" [number item.artifactSize],
    match item.installedSize with
      | none => []
      | some size => field "ISIZE" [number size],
    field "SHA256SUM" [item.artifactSha256], field "PGPSIG" [base64 signature], field "URL" [item.upstreamUrl],
    field "LICENSE" [textValue item.license], field "ARCH" [units item.architecture.text],
    field "BUILDDATE" [number item.sourceDateEpoch], field "PACKAGER" [units "omapkg"],
    if item.metadata.depends.length ≠ 0 then field "DEPENDS" (item.metadata.depends.map units) else [],
    if item.metadata.provides.length ≠ 0 then field "PROVIDES" (item.metadata.provides.map units) else [],
    if item.metadata.conflicts.length ≠ 0 then field "CONFLICTS" (item.metadata.conflicts.map units) else [],
    if item.metadata.replaces.length ≠ 0 then field "REPLACES" (item.metadata.replaces.map units) else []]

/-- The file of a package's entry. -/
def descFile (item : RepositoryDatabasePackage) (signature : Bytes) : Bytes := encodeUnits (desc item signature)

/-! ## What is supplied, and what is read -/

def readDesc (file : Bytes) : Option (List (Entry UInt16)) := parse 0x0A 0x25 (decodeUnits file)

def listField (name : String) (values : List String) : List (Entry UInt16) :=
  if values = [] then [] else [⟨units name, values.map units⟩]

/-- The fields of a package with their values. -/
def supplied (item : RepositoryDatabasePackage) (signature : Bytes) : List (Entry UInt16) :=
  [⟨units "FILENAME", [item.artifactFilename]⟩, ⟨units "NAME", [units item.name]⟩, ⟨units "BASE", [units item.name]⟩,
    ⟨units "VERSION", [units item.version]⟩, ⟨units "DESC", [item.description]⟩, ⟨units "CSIZE", [number item.artifactSize]⟩] ++
  (item.installedSize.toList.map fun size => ⟨units "ISIZE", [number size]⟩) ++
  [⟨units "SHA256SUM", [item.artifactSha256]⟩, ⟨units "PGPSIG", [base64 signature]⟩, ⟨units "URL", [item.upstreamUrl]⟩,
    ⟨units "LICENSE", [item.license]⟩, ⟨units "ARCH", [units item.architecture.text]⟩,
    ⟨units "BUILDDATE", [number item.sourceDateEpoch]⟩, ⟨units "PACKAGER", [units "omapkg"]⟩] ++
  listField "DEPENDS" item.metadata.depends ++ listField "PROVIDES" item.metadata.provides ++
    listField "CONFLICTS" item.metadata.conflicts ++ listField "REPLACES" item.metadata.replaces

/-- What the validators let through: `href` gives the address of a URL as the runtime writes it. -/
structure Admitted (href : JsString → Option JsString) (item : RepositoryDatabasePackage) : Prop where
  metadata : ∃ value parsed, parsePackageMetadata value = some parsed ∧ item.name = parsed.name ∧
    item.version = parsed.fullVersion ∧ item.metadata = { parsed with architecture := item.metadata.architecture }
  description : ∃ input, catalogDescription input = some item.description
  license : ∃ input, parseDeclaredLicense input = some item.license
  upstreamUrl : ∃ input, href input = some item.upstreamUrl

/-! ## Values of one line -/

/-- A value that a field holds as it is. -/
def Fits (v : JsString) : Prop := v ≠ [] ∧ 0x0A ∉ v ∧ units (toText v) = v

/-- A field as it is written, its name in units. -/
def fieldText (f : Entry UInt16) : JsString :=
  header 0x25 f.name ++ [0x0A] ++ (List.intercalate [0x0A] (f.values.filter (· ≠ [])) ++ [0x0A, 0x0A])

theorem field_eq (name : String) (values : List JsString) : field name values = fieldText ⟨units name, values⟩ := by
  have hmark : units "%" = [0x25] ∧ units "%\n" = [0x25, 0x0A] := by decide
  simp only [field, fieldText, units_append, hmark.1, hmark.2, header, List.append_assoc, List.cons_append, List.nil_append]

/-- Values of one line each are written as the lines of a field. -/
theorem fieldText_eq {f : Entry UInt16} (hvalues : f.values ≠ []) (hempty : [] ∉ f.values) :
    fieldText f = joinLines 0x0A (fieldLines 0x25 f) := by
  have hfilter : f.values.filter (· ≠ []) = f.values :=
    List.filter_eq_self.mpr fun v hv => decide_eq_true fun he => hempty (he ▸ hv)
  have hjoin : ∀ vs : List JsString, vs ≠ [] → List.intercalate [0x0A] vs ++ [0x0A] = joinLines 0x0A vs := by
    intro vs hvs
    induction vs with
    | nil => exact absurd rfl hvs
    | cons v vs ih =>
      cases vs with
      | nil => simp [joinLines]
      | cons w vs =>
        rw [List.intercalate_cons_cons, List.append_assoc, ih (by simp)]
        simp [joinLines]
  have hlines : joinLines 0x0A (fieldLines 0x25 f) = header 0x25 f.name ++ [0x0A] ++ (joinLines 0x0A f.values ++ [0x0A]) := by
    simp [joinLines, fieldLines, List.flatMap_append]
  rw [fieldText, hfilter, hlines, ← hjoin f.values hvalues, List.append_assoc _ _ [0x0A]]
  rfl

theorem flatMap_fieldText {fs : List (Entry UInt16)} (h : ∀ f ∈ fs, f.values ≠ [] ∧ [] ∉ f.values) :
    fs.flatMap fieldText = joinLines 0x0A (fs.flatMap (fieldLines 0x25)) := by
  induction fs with
  | nil => rfl
  | cons f fs ih =>
    obtain ⟨hf, hfs⟩ := List.forall_mem_cons.mp h
    rw [List.flatMap_cons, List.flatMap_cons, joinLines, List.flatMap_append, ← joinLines, ← joinLines, ih hfs,
      fieldText_eq hf.1 hf.2]

theorem toText_joinLines (ls : List JsString) :
    units (toText (joinLines 0x0A ls)) = joinLines 0x0A (ls.map fun l => units (toText l)) := by
  induction ls with
  | nil => rfl
  | cons l ls ih =>
    have hcons (l : JsString) (ls : List JsString) : joinLines 0x0A (l :: ls) = l ++ 0x0A :: joinLines 0x0A ls := by
      simp [joinLines]
    rw [hcons, units_toText_append (by decide), ih, List.map_cons, hcons]

theorem fits_graphic {s : String} (h : s ≠ "") (hg : ∀ c ∈ s.toList, Graphic c) : Fits (units s) := by
  refine ⟨?_, ?_, by rw [toText_units]⟩
  · intro hnil
    exact h (units_injective hnil)
  · intro hline
    obtain ⟨c, hc, hu⟩ := List.mem_flatMap.mp hline
    obtain ⟨hlow, hhigh⟩ := hg c hc
    rw [encodeUnit, if_pos (by omega), List.mem_singleton] at hu
    have hn : (UInt16.ofNat c.toNat).toNat = c.toNat := toNat_unit (by omega)
    rw [← hu] at hn
    have : (0x0A : UInt16).toNat = 10 := rfl
    omega

theorem fits_pattern {s : JsString} (h : s ≠ []) (hg : ∀ c ∈ ascii s, Graphic c) : Fits s := by
  have hascii : ∀ u ∈ s, 0x20 < u.toNat ∧ u.toNat < 0x7F := by
    intro u hu
    have hc := hg _ (List.mem_map_of_mem hu)
    by_cases hv : u.toNat.isValidChar
    · rw [Graphic, toNat_ofNat hv] at hc
      exact hc
    · rw [Char.ofNat, dif_neg hv] at hc
      exact absurd hc (by decide)
  refine ⟨h, fun hline => absurd (hascii _ hline).1 (by decide), units_toText_encodable fun u hu => ?_⟩
  obtain ⟨hlow, hhigh⟩ := hascii u hu
  exact not_surrogate_of_lt (by omega)

theorem graphic_repr (n : Nat) : ∀ c ∈ (Nat.repr n).toList, Graphic c := by
  rw [Nat.repr_eq_ofList_toDigits, String.toList_ofList]
  intro c hc
  have hdigit := Nat.isDigit_of_mem_toDigits (by decide) (by decide) hc
  refine graphic_alnum ?_
  simp only [Char.isDigit, Bool.and_eq_true, decide_eq_true_eq] at hdigit
  simp only [isAlnum, Bool.or_eq_true, Bool.and_eq_true, decide_eq_true_eq]
  exact .inr hdigit

theorem repr_ne_empty (n : Nat) : Nat.repr n ≠ "" := by
  intro h
  have := congrArg String.toList h
  rw [Nat.repr_eq_ofList_toDigits, String.toList_ofList] at this
  exact Nat.toDigits_ne_nil this

theorem fits_number (n : Int) : Fits (number n) := by
  cases n with
  | ofNat n => exact fits_graphic (repr_ne_empty n) (graphic_repr n)
  | negSucc n =>
    refine fits_graphic (s := "-" ++ Nat.repr (n + 1)) ?_ ?_
    · intro h
      have := congrArg String.length h
      simp at this
    · rw [String.toList_append]
      intro c hc
      rcases List.mem_append.mp hc with hc | hc
      · exact graphic_all (by decide) c hc
      · exact graphic_repr _ c hc

theorem graphic_base64Digit {n : Nat} (h : n < 64) : Graphic (base64Digit n) := by
  revert h n
  decide

theorem graphic_base64Chars (bytes : Bytes) : ∀ c ∈ base64Chars bytes, Graphic c := by
  have hpad : Graphic '=' := by decide
  fun_induction base64Chars bytes with
  | case1 => simp
  | case2 a =>
    have := a.toNat_lt
    simp only [List.forall_mem_cons]
    exact ⟨graphic_base64Digit (by omega), graphic_base64Digit (by omega), hpad, hpad, by simp⟩
  | case3 a b =>
    have := a.toNat_lt
    have := b.toNat_lt
    simp only [List.forall_mem_cons]
    exact ⟨graphic_base64Digit (by omega), graphic_base64Digit (by omega), graphic_base64Digit (by omega), hpad, by simp⟩
  | case4 a b c rest ih =>
    have := a.toNat_lt
    have := b.toNat_lt
    have := c.toNat_lt
    simp only [List.forall_mem_cons]
    exact ⟨graphic_base64Digit (by omega), graphic_base64Digit (by omega), graphic_base64Digit (by omega),
      graphic_base64Digit (by omega), ih⟩

theorem fits_base64 {bytes : Bytes} (h : bytes ≠ []) : Fits (base64 bytes) := by
  refine fits_graphic (fun hnil => h ?_) (by simpa using graphic_base64Chars bytes)
  have hchars : base64Chars bytes = [] := by
    have := congrArg String.toList hnil
    rwa [String.toList_ofList] at this
  match bytes with
  | [] => rfl
  | [_] => cases hchars
  | [_, _] => cases hchars
  | _ :: _ :: _ :: _ => cases hchars

theorem fits_filename {s : JsString} (h : isPackageFilename s = true) : Fits s := by
  obtain ⟨hsuffix, hword⟩ : ".pkg.tar.zst".toList.isSuffixOf (ascii s) = true ∧ _ := Bool.and_eq_true_iff.mp h
  obtain ⟨front, hfront⟩ := List.isSuffixOf_iff_suffix.mp hsuffix
  have hlen : s.length = (ascii s).length := by rw [ascii, List.length_map]
  have htake : (ascii s).take (s.length - ".pkg.tar.zst".toList.length) = front := by
    rw [hlen, ← hfront, List.length_append, Nat.add_sub_cancel, List.take_left]
  rw [htake] at hword
  have hsuffixGraphic : ∀ c ∈ ".pkg.tar.zst".toList, Graphic c := graphic_all (by decide)
  refine fits_pattern ?_ fun c hc => ?_
  · rintro rfl
    exact absurd hsuffix (by decide)
  · rw [← hfront] at hc
    rcases List.mem_append.mp hc with hc | hc
    · exact word_all hword (fun c => graphic_alnum) (fun c => graphic_class _ (by decide)) c hc
    · exact hsuffixGraphic c hc

theorem fits_sha256 {s : JsString} (h : isSha256 s = true) : Fits s := by
  simp only [isSha256, Hash.isHexDigest, Bool.and_eq_true, List.all_eq_true, decide_eq_true_eq] at h
  refine fits_pattern ?_ fun c hc => ?_
  · rintro rfl
    exact absurd h.1 (by decide)
  · have hx := h.2 c hc
    refine graphic_alnum ?_
    simp only [Hash.isLowerHex, Bool.or_eq_true, Bool.and_eq_true, decide_eq_true_eq] at hx
    simp only [isAlnum, Bool.or_eq_true, Bool.and_eq_true, decide_eq_true_eq]
    rcases hx with hx | ⟨ha, hf⟩
    · exact .inr hx
    · exact .inl (.inr ⟨ha, hf.trans (by decide)⟩)

theorem fits_relation {provides allowSoname : Bool} {item : String} (h : Arch.isRelation provides allowSoname item = true) :
    Fits (units item) := by
  have hfit : item ≠ "" ∧ Arch.hasSpace item = false := by
    constructor
    · rintro rfl
      simp [Arch.isRelation] at h
    · by_contra hspace
      rw [Bool.not_eq_false] at hspace
      simp [Arch.isRelation, hspace] at h
  refine ⟨fun hnil => hfit.1 (units_injective hnil), fun hline => ?_, by rw [toText_units]⟩
  have hspace : Arch.hasSpace item = true := List.any_eq_true.mpr ⟨_, hline, by decide⟩
  rw [hfit.2] at hspace
  cases hspace

theorem alnum_of_lower {c : Char} (h : Arch.isLowerAlnum c = true) : isAlnum c = true := by
  rcases Bool.or_eq_true_iff.mp h with h | h
  · exact Bool.or_eq_true_iff.mpr (.inl (Bool.or_eq_true_iff.mpr (.inr h)))
  · exact Bool.or_eq_true_iff.mpr (.inr h)

/-- A name and a version are graphic texts. -/
theorem graphic_metadata {value : Json String} {parsed : PackageMetadata} (h : parsePackageMetadata value = some parsed) :
    parsed.name ≠ "" ∧ parsed.fullVersion ≠ "" ∧ (∀ c ∈ parsed.name.toList, Graphic c) ∧
      ∀ c ∈ parsed.fullVersion.toList, Graphic c := by
  obtain ⟨hname, hversion, -⟩ := Arch.parsePackageMetadata_accepted h
  have hversionText : Arch.isVersionText parsed.fullVersion.toList = true := by
    by_contra hfalse
    rw [Bool.not_eq_true] at hfalse
    rw [Arch.parseArchPackageVersion, if_pos hfalse] at hversion
    cases hversion
  refine ⟨?_, ?_, word_all hname (fun c hc => graphic_alnum (alnum_of_lower hc)) fun c hc => ?_,
    fun c hc => graphic_version (version_all hversionText c hc)⟩
  · rintro hnil
    rw [hnil] at hname
    exact absurd hname (by decide)
  · rintro hnil
    rw [hnil] at hversionText
    exact absurd hversionText (by decide)
  · rcases Bool.or_eq_true_iff.mp hc with hc | hc
    · exact graphic_alnum (alnum_of_lower hc)
    · exact graphic_class _ (by decide) (Bool.or_eq_true_iff.mpr (.inr hc))

theorem fits_metadata {value : Json String} {parsed : PackageMetadata} (h : parsePackageMetadata value = some parsed) :
    Fits (units parsed.name) ∧ Fits (units parsed.fullVersion) ∧
      ∀ relation ∈ parsed.depends ++ parsed.provides ++ parsed.conflicts ++ parsed.replaces, Fits (units relation) := by
  obtain ⟨-, -, ⟨-, hdepends⟩, ⟨-, hprovides⟩, ⟨-, hconflicts⟩, -, hreplaces⟩ := Arch.parsePackageMetadata_accepted h
  obtain ⟨hname, hversion, hgraphicName, hgraphicVersion⟩ := graphic_metadata h
  refine ⟨fits_graphic hname hgraphicName, fits_graphic hversion hgraphicVersion, ?_⟩
  simp only [List.forall_mem_append]
  exact ⟨⟨⟨fun r hr => fits_relation (hdepends r hr), fun r hr => fits_relation (hprovides r hr)⟩,
    fun r hr => fits_relation (hconflicts r hr)⟩, fun r hr => fits_relation (hreplaces r hr)⟩

theorem dropWhile_twice {α : Type} (p : α → Bool) (l : List α) : (l.dropWhile p).dropWhile p = l.dropWhile p := by
  induction l with
  | nil => rfl
  | cons a l ih =>
    by_cases ha : p a = true
    · rw [List.dropWhile_cons_of_pos ha, ih]
    · rw [List.dropWhile_cons_of_neg ha, List.dropWhile_cons_of_neg ha]

theorem trim_trim (s : JsString) : trim (trim s) = trim s := by
  have hstart : (trim s).dropWhile isJsSpace = trim s := by
    have hprefix : trim s <+: s.dropWhile isJsSpace := by
      rw [trim, ← List.reverse_suffix, List.reverse_reverse]
      exact List.dropWhile_suffix _
    obtain ⟨rest, hrest⟩ := hprefix
    have hfirst := dropWhile_twice isJsSpace s
    rw [← hrest] at hfirst
    rcases hr : trim s with _ | ⟨u, us⟩
    · rfl
    · rw [hr, List.cons_append] at hfirst
      have hu := List.dropWhile_eq_self_iff.mp hfirst (by simp)
      exact List.dropWhile_cons_of_neg hu
  have hend : (trim s).reverse.dropWhile isJsSpace = (trim s).reverse := by
    rw [trim, List.reverse_reverse, dropWhile_twice]
  conv_lhs => rw [trim, hstart, hend, List.reverse_reverse]

/-! ## Licenses -/

/-- What a license expression is written with. -/
def IsLicenseText (u : UInt16) : Prop := isJsSpace u = true ∨ isLicenseUnit u = true ∨ u = 0x28 ∨ u = 0x29

theorem licenseTokens_units {fuel : Nat} {us : JsString} {tokens : List JsString} (h : licenseTokens fuel us = some tokens) :
    ∀ u ∈ us, IsLicenseText u := by
  induction fuel generalizing us tokens with
  | zero =>
    cases us with
    | nil => simp
    | cons u us => cases h
  | succ fuel ih =>
    cases us with
    | nil => simp
    | cons u us =>
      rw [licenseTokens] at h
      rw [List.forall_mem_cons]
      split at h
      · next hspace => exact ⟨.inl hspace, ih h⟩
      · split at h
        · next hparen =>
          obtain ⟨_, hrest, -⟩ := Option.map_eq_some_iff.mp h
          exact ⟨.inr (.inr hparen), ih hrest⟩
        · split at h
          · next halnum =>
            obtain ⟨_, hrest, -⟩ := Option.map_eq_some_iff.mp h
            refine ⟨.inr (.inl (by simp [isLicenseUnit, halnum])), fun v hv => ?_⟩
            rw [← List.takeWhile_append_dropWhile (p := isLicenseUnit) (l := us)] at hv
            rcases List.mem_append.mp hv with hv | hv
            · exact .inr (.inl (List.mem_takeWhile_imp hv))
            · exact ih hrest v hv
          · cases h

theorem not_surrogate_of_licenseText {u : UInt16} (h : IsLicenseText u) : isHigh u = false ∧ isLow u = false := by
  rcases h with h | h | rfl | rfl
  · simpa using jsSpace_all (p := fun v => !isHigh v && !isLow v) (by decide) h
  · have hlow : u.toNat < 128 := by
      simp only [isLicenseUnit, isAlnumUnit, Bool.or_eq_true, Bool.and_eq_true, decide_eq_true_eq] at h
      rcases h with (((⟨h, -⟩ | rfl) | rfl) | rfl) | rfl
      · exact UInt16.lt_iff_toNat_lt.mp h
      · decide
      · decide
      · decide
      · decide
    exact not_surrogate_of_lt (by omega)
  · decide
  · decide

theorem textValue_trim {s : JsString} (h : (trim s).any isControl = false) : textValue (trim s) = trim s := by
  have hmap : (trim s).map (fun u => if u = 0 ∨ u = 0x0D ∨ u = 0x0A then 0x20 else u) = trim s := by
    conv_rhs => rw [← List.map_id (trim s)]
    refine List.map_congr_left fun u hu => if_neg ?_
    have hcontrol := List.any_eq_false.mp h u hu
    rintro (rfl | rfl | rfl) <;> exact hcontrol (by decide)
  rw [textValue, hmap, trim_trim]

theorem fits_license {input value : JsString} (h : parseDeclaredLicense input = some value) :
    Fits value ∧ textValue value = value := by
  unfold parseDeclaredLicense at h
  dsimp only at h
  split at h
  · next hword =>
    cases h
    have hcontrol : (trim input).any isControl = false := by
      rcases hword with hword | hword <;> (rw [hword]; decide)
    refine ⟨?_, textValue_trim hcontrol⟩
    rcases hword with hword | hword <;> rw [hword] <;> exact fits_graphic (by decide) (graphic_all (by decide))
  · split at h
    · cases h
    · next hnot =>
      obtain ⟨hne, -, hcontrol⟩ : trim input ≠ [] ∧ _ ∧ ¬(trim input).any isControl = true := by
        simpa only [not_or] using hnot
      rw [Bool.not_eq_true] at hcontrol
      obtain ⟨tokens, htokens, h⟩ := Option.bind_eq_some_iff.mp h
      split at h
      · cases h
        refine ⟨⟨hne, fun hline => ?_, ?_⟩, textValue_trim hcontrol⟩
        · exact absurd (show isControl 0x0A = true by decide) (List.any_eq_false.mp hcontrol _ hline)
        · exact units_toText_encodable fun u hu => not_surrogate_of_licenseText (licenseTokens_units htokens u hu)
      · cases h

/-! ## The file -/

/-- The fields as they are written. -/
def written (item : RepositoryDatabasePackage) (signature : Bytes) : List (Entry UInt16) :=
  supplied { item with license := textValue item.license } signature

theorem flatMap_listField (name : String) (values : List String) :
    (listField name values).flatMap fieldText = if values.length ≠ 0 then field name (values.map units) else [] := by
  cases values with
  | nil => rfl
  | cons value values =>
    rw [listField, if_neg (by simp), if_pos (by simp), field_eq, List.flatMap_singleton]

theorem desc_eq (item : RepositoryDatabasePackage) (signature : Bytes) :
    desc item signature = (written item signature).flatMap fieldText := by
  cases hsize : item.installedSize <;>
    simp only [desc, written, supplied, hsize, List.flatMap_append, flatMap_listField, field_eq, List.flatMap_cons,
      List.flatMap_nil, List.flatten_cons, List.flatten_nil, Option.toList, List.map_nil, List.map_cons, List.append_assoc,
      List.append_nil, List.nil_append]

theorem description_supplied (item : RepositoryDatabasePackage) (signature : Bytes) :
    ⟨units "DESC", [item.description]⟩ ∈ supplied item signature := by
  simp [supplied]

/-- A field that is read back. -/
def Sound (f : Entry UInt16) : Prop :=
  f.values ≠ [] ∧ 0x0A ∉ f.name ∧ units (toText f.name) = f.name ∧ ∀ v ∈ f.values, Fits v

theorem sound_single {name : String} {v : JsString} (hname : 0x0A ∉ units name) (hv : Fits v) : Sound ⟨units name, [v]⟩ :=
  ⟨by simp, hname, by simp, by simpa using hv⟩

theorem sound_list {name : String} {values : List String} (hname : 0x0A ∉ units name)
    (hvalues : ∀ r ∈ values, Fits (units r)) : ∀ f ∈ listField name values, Sound f := by
  unfold listField
  split
  · simp
  · next hne =>
    simp only [List.mem_singleton]
    rintro _ rfl
    exact ⟨by simpa using hne, hname, by simp, by simpa using hvalues⟩

/-- Fields of one line each are read back from their text. -/
theorem readDesc_sound {fs : List (Entry UInt16)} (h : ∀ f ∈ fs, Sound f) :
    readDesc (encodeUnits (fs.flatMap fieldText)) = some fs := by
  have hlines : ∀ l ∈ fs.flatMap (fieldLines 0x25), units (toText l) = l := by
    intro l hl
    obtain ⟨f, hf, hl⟩ := List.mem_flatMap.mp hl
    obtain ⟨-, -, hname, hvalues⟩ := h f hf
    rcases List.mem_cons.mp hl with rfl | hl
    · have hinner : units (toText (f.name ++ [0x25])) = f.name ++ [0x25] := by
        rw [units_toText_append (by decide), hname]
        rfl
      have houter : units (toText ([] ++ 0x25 :: (f.name ++ [0x25]))) = _ := units_toText_append (by decide) _ _
      rw [hinner] at houter
      exact houter
    · rcases List.mem_append.mp hl with hl | hl
      · exact (hvalues l hl).2.2
      · rw [List.mem_singleton.mp hl]
        rfl
  rw [readDesc, decodeUnits_encodeUnits, flatMap_fieldText fun f hf => ⟨(h f hf).1, fun hnil => ((h f hf).2.2.2 [] hnil).1 rfl⟩,
    toText_joinLines, List.map_congr_left hlines, List.map_id']
  refine parse_joinLines (by decide) fun f hf => ?_
  obtain ⟨-, hname, -, hvalues⟩ := h f hf
  exact ⟨hname, fun v hv => ⟨(hvalues v hv).1, (hvalues v hv).2.1⟩⟩

theorem checkPackage_ok {item : RepositoryDatabasePackage} {signature : Option Bytes} {bytes : Bytes}
    (h : checkPackage item signature = .ok bytes) :
    isPackageFilename item.artifactFilename = true ∧ isSha256 item.artifactSha256 = true ∧ bytes ≠ [] ∧
      signature = some bytes := by
  obtain ⟨hnot, h⟩ := guard_ok.mp h
  simp only [not_or, Bool.not_eq_false] at hnot
  cases signature with
  | none => cases h
  | some bytes' =>
    obtain ⟨hlength, h⟩ := guard_ok.mp h
    obtain ⟨-, h⟩ := guard_ok.mp h
    obtain rfl := Except.ok.inj h
    refine ⟨hnot.2.1, hnot.2.2.1, ?_, rfl⟩
    rintro rfl
    exact hlength (.inl rfl)

theorem catalogDescription_ne_nil {input value : JsString} (h : catalogDescription input = some value) : value ≠ [] := by
  unfold catalogDescription at h
  dsimp only at h
  split at h
  · cases h
  · next hnot =>
    rw [← Option.some.inj h]
    intro hnil
    exact hnot (.inl (by rw [hnil]; decide))

section

-- The address of a URL is ASCII text without control characters.
variable {href : JsString → Option JsString}
  (hhref : ∀ input url, href input = some url → url ≠ [] ∧ IsAscii url ∧ url.any isControl = false)
  {item : RepositoryDatabasePackage} (hadmitted : Admitted href item) {signature : Option Bytes} {bytes : Bytes}
  (hcheck : checkPackage item signature = .ok bytes)

include hhref hadmitted hcheck

/-- With a description of one line, all that is supplied is read back. -/
theorem sound_supplied {description : JsString} (hdescription : Fits description) :
    ∀ f ∈ supplied { item with description } bytes, Sound f := by
  obtain ⟨value, parsed, hparsed, hname, hversion, hmetadata⟩ := hadmitted.metadata
  obtain ⟨_, hlicense⟩ := hadmitted.license
  obtain ⟨_, hurl⟩ := hadmitted.upstreamUrl
  obtain ⟨hparsedName, hparsedVersion, hrelations⟩ := fits_metadata hparsed
  rw [← hname] at hparsedName
  rw [← hversion] at hparsedVersion
  have hrelation : ∀ r ∈ item.metadata.depends ++ item.metadata.provides ++ item.metadata.conflicts ++ item.metadata.replaces,
      Fits (units r) := by
    rw [hmetadata]
    exact hrelations
  have hurlFits : Fits item.upstreamUrl := by
    obtain ⟨hne, hascii, hcontrol⟩ := hhref _ _ hurl
    refine ⟨hne, fun hline => List.any_eq_false.mp hcontrol _ hline (by decide), units_toText hascii⟩
  have harchitecture : Fits (units item.architecture.text) := by
    cases item.architecture <;> exact fits_graphic (by decide) (graphic_all (by decide))
  obtain ⟨hfilename, hsha256, hsignature, -⟩ := checkPackage_ok hcheck
  have hlists : (∀ r ∈ item.metadata.depends, Fits (units r)) ∧ (∀ r ∈ item.metadata.provides, Fits (units r)) ∧
      (∀ r ∈ item.metadata.conflicts, Fits (units r)) ∧ ∀ r ∈ item.metadata.replaces, Fits (units r) := by
    refine ⟨?_, ?_, ?_, ?_⟩ <;> intro r hr <;> exact hrelation r (by simp [hr])
  simp only [supplied, List.forall_mem_append]
  refine ⟨⟨⟨⟨⟨⟨?_, ?_⟩, ?_⟩, sound_list (by decide) hlists.1⟩, sound_list (by decide) hlists.2.1⟩,
    sound_list (by decide) hlists.2.2.1⟩, sound_list (by decide) hlists.2.2.2⟩
  · simp only [List.forall_mem_cons]
    exact ⟨sound_single (by decide) (fits_filename hfilename), sound_single (by decide) hparsedName,
      sound_single (by decide) hparsedName, sound_single (by decide) hparsedVersion, sound_single (by decide) hdescription,
      sound_single (by decide) (fits_number _), by simp⟩
  · intro f hf
    obtain ⟨size, -, rfl⟩ := List.mem_map.mp hf
    exact sound_single (by decide) (fits_number _)
  · simp only [List.forall_mem_cons]
    exact ⟨sound_single (by decide) (fits_sha256 hsha256), sound_single (by decide) (fits_base64 hsignature),
      sound_single (by decide) hurlFits, sound_single (by decide) (fits_license hlicense).1,
      sound_single (by decide) harchitecture, sound_single (by decide) (fits_number _),
      sound_single (by decide) (fits_graphic (by decide) (graphic_all (by decide))), by simp⟩

/-- A package with a description of one line is read back. -/
theorem readDesc_of_fits {description : JsString} (hdescription : Fits description) :
    readDesc (descFile { item with description } bytes) = some (supplied { item with description } bytes) := by
  obtain ⟨_, hlicense⟩ := hadmitted.license
  rw [descFile, desc_eq, written, (fits_license hlicense).2]
  exact readDesc_sound (sound_supplied hhref hadmitted hcheck hdescription)

/-- A description goes on after an empty line with a field of its own. -/
theorem readDesc_forged {description value : JsString} (hdescription : Fits description) {name : String}
    (hname : 0x0A ∉ units name) (hvalue : Fits value) :
    readDesc (descFile { item with description :=
        description ++ 0x0A :: 0x0A :: (header 0x25 (units name) ++ 0x0A :: value) } bytes) =
      some ((supplied item bytes).take 4 ++ ⟨units "DESC", [description]⟩ :: ⟨units name, [value]⟩ ::
        (supplied item bytes).drop 5) := by
  have hsound := sound_supplied hhref hadmitted hcheck hdescription
  have hlicense : textValue item.license = item.license := by
    obtain ⟨_, hlicense⟩ := hadmitted.license
    exact (fits_license hlicense).2
  have hfields : written { item with description :=
        description ++ 0x0A :: 0x0A :: (header 0x25 (units name) ++ 0x0A :: value) } bytes =
      (supplied item bytes).take 4 ++ ⟨units "DESC", [description ++ 0x0A :: 0x0A :: (header 0x25 (units name) ++ 0x0A :: value)]⟩ ::
        (supplied item bytes).drop 5 := by
    rw [written, hlicense]
    rfl
  have hvalues : value ≠ [] ∧ description ≠ [] := ⟨hvalue.1, hdescription.1⟩
  have htext : fieldText ⟨units "DESC", [description ++ 0x0A :: 0x0A :: (header 0x25 (units name) ++ 0x0A :: value)]⟩ =
      fieldText ⟨units "DESC", [description]⟩ ++ fieldText ⟨units name, [value]⟩ := by
    simp [fieldText, hvalues]
  rw [descFile, desc_eq, hfields, List.flatMap_append, List.flatMap_cons, htext, List.append_assoc, ← List.flatMap_cons,
    ← List.flatMap_cons, ← List.flatMap_append]
  refine readDesc_sound fun f hf => ?_
  rcases List.mem_append.mp hf with hf | hf
  · have hf : f ∈ (supplied { item with description } bytes).take 4 := hf
    exact hsound f (List.mem_of_mem_take hf)
  · rcases List.mem_cons.mp hf with rfl | hf
    · exact sound_single (by decide) hdescription
    · rcases List.mem_cons.mp hf with rfl | hf
      · exact sound_single hname hvalue
      · have hf : f ∈ (supplied { item with description } bytes).drop 5 := hf
        exact hsound f (List.mem_of_mem_drop hf)

omit hhref hadmitted hcheck

/-- Where a description stands in the text. -/
theorem desc_split (item : RepositoryDatabasePackage) (signature : Bytes) : ∃ before after, ∀ description ≠ [],
    desc { item with description } signature = before ++ 0x0A :: (description ++ 0x0A :: after) := by
  refine ⟨((written item signature).take 4).flatMap fieldText ++ header 0x25 (units "DESC"),
    0x0A :: ((written item signature).drop 5).flatMap fieldText, fun description h => ?_⟩
  have hsplit : written { item with description } signature =
      (written item signature).take 4 ++ ⟨units "DESC", [description]⟩ :: (written item signature).drop 5 := rfl
  have hfield : fieldText ⟨units "DESC", [description]⟩ =
      header 0x25 (units "DESC") ++ 0x0A :: (description ++ [0x0A, 0x0A]) := by
    rw [fieldText, List.filter_cons_of_pos (by simpa using h)]
    simp
  rw [desc_eq, hsplit, List.flatMap_append, List.flatMap_cons, hfield]
  simp

theorem units_toText_ne_nil {us : JsString} (h : us ≠ []) : units (toText us) ≠ [] := by
  intro hnil
  have htext : toText us = "" := units_injective hnil
  exact h (encodeUnits_eq_nil (by rw [encodeUnits, htext]; rfl))

theorem descFile_toText (item : RepositoryDatabasePackage) (signature : Bytes) {description : JsString} (h : description ≠ []) :
    decodeUnits (descFile { item with description } signature) =
      decodeUnits (descFile { item with description := units (toText description) } signature) := by
  obtain ⟨before, after, hsplit⟩ := desc_split item signature
  rw [descFile, descFile, decodeUnits_encodeUnits, decodeUnits_encodeUnits, hsplit _ h, hsplit _ (units_toText_ne_nil h),
    units_toText_append (by decide), units_toText_append (by decide), units_toText_append (by decide),
    units_toText_append (by decide), toText_units]

end

/-- The bytes of a package's entry give back its fields just when its description is one line of characters. -/
theorem descFile_read_iff {href : JsString → Option JsString}
    (hhref : ∀ input url, href input = some url → url ≠ [] ∧ IsAscii url ∧ url.any isControl = false)
    {item : RepositoryDatabasePackage} (hadmitted : Admitted href item) {signature : Option Bytes} {bytes : Bytes}
    (hcheck : checkPackage item signature = .ok bytes) :
    readDesc (descFile item bytes) = some (supplied item bytes) ↔
      0x0A ∉ item.description ∧ units (toText item.description) = item.description := by
  have hne : item.description ≠ [] := by
    obtain ⟨input, hinput⟩ := hadmitted.description
    exact catalogDescription_ne_nil hinput
  constructor
  · intro hread
    have hline : 0x0A ∉ item.description :=
      parse_values hread _ (description_supplied item bytes) _ (by simp)
    refine ⟨hline, ?_⟩
    have hfits : Fits (units (toText item.description)) :=
      ⟨units_toText_ne_nil hne, fun h => hline (unit_mem_units_toText (by decide) h), by rw [toText_units]⟩
    have hback := readDesc_of_fits hhref hadmitted hcheck hfits
    have hbytes := descFile_toText item bytes hne
    rw [readDesc, ← hbytes, ← readDesc, hread, Option.some.injEq] at hback
    have hfield := congrArg (fun fs => (fs[4]?).map Entry.values) hback
    simpa [supplied] using hfield.symm
  · rintro ⟨hline, htext⟩
    exact readDesc_of_fits hhref hadmitted hcheck ⟨hne, hline, htext⟩

def toolMetadata : PackageMetadata where
  name := "tool"
  fullVersion := "1.0-1"
  architecture := .x86_64
  installedSize := 1
  depends := ["lib>=2"]
  provides := []
  conflicts := []
  replaces := []

def toolSha256 : JsString := List.replicate 64 0x61

/-- A package of the version 1.0-1 with one dependency. -/
def toolPackage (description : JsString) : RepositoryDatabasePackage where
  id := "r1"
  name := "tool"
  version := "1.0-1"
  architecture := .x86_64
  artifactSha256 := toolSha256
  artifactSize := 1024
  artifactFilename := units "tool.pkg.tar.zst"
  installedSize := none
  sourceDateEpoch := 0
  license := units "MIT"
  upstreamUrl := units "https://example.org/"
  description
  metadata := toolMetadata

/-- The address of one URL. -/
def exampleHref (input : JsString) : Option JsString :=
  if input = units "https://example.org" then some (units "https://example.org/") else none

theorem exampleHref_plain : ∀ input url, exampleHref input = some url →
    url ≠ [] ∧ IsAscii url ∧ url.any isControl = false := by
  intro input url h
  unfold exampleHref at h
  split at h
  · cases h
    exact ⟨by decide, by decide, by decide⟩
  · cases h

theorem toolPackage_admitted {input description : JsString} (h : catalogDescription input = some description) :
    Admitted exampleHref (toolPackage description) := by
  have haccepted : Arch.Accepted toolMetadata := ⟨by decide, by decide, by decide, by decide, by decide, by decide⟩
  have hlicense : parseDeclaredLicense (units "MIT") = some (units "MIT") := by decide
  have hurl : exampleHref (units "https://example.org") = some (units "https://example.org/") := by decide
  exact ⟨⟨_, _, haccepted.parse, rfl, rfl, rfl⟩, ⟨input, h⟩, ⟨_, hlicense⟩, ⟨_, hurl⟩⟩

theorem toolPackage_checked (description : JsString) : checkPackage (toolPackage description) (some [1, 2, 3]) = .ok [1, 2, 3] := by
  have hfilename : isPackageFilename (units "tool.pkg.tar.zst") = true := by decide
  have hsha256 : isSha256 toolSha256 = true := by decide
  have hsize : isSize 1024 = true := by decide
  have hempty : units "tool.pkg.tar.zst" ≠ [] := by decide
  simp [checkPackage, toolPackage, hfilename, hsha256, hsize, hempty]

theorem descFile_read_tool :
    readDesc (descFile (toolPackage (units "A tool")) [1, 2, 3]) = some (supplied (toolPackage (units "A tool")) [1, 2, 3]) ↔
      0x0A ∉ units "A tool" ∧ units (toText (units "A tool")) = units "A tool" :=
  descFile_read_iff exampleHref_plain (@toolPackage_admitted (units "A tool") (units "A tool") (by decide)) (toolPackage_checked _)

/-- A description that the catalog's validator lets through, and the field that it forges. -/
theorem description_forges_signature : ∃ input description fields, catalogDescription input = some description ∧
    Admitted exampleHref (toolPackage description) ∧ checkPackage (toolPackage description) (some [1, 2, 3]) = .ok [1, 2, 3] ∧
    readDesc (descFile (toolPackage description) [1, 2, 3]) = some fields ∧ fields ≠ supplied (toolPackage description) [1, 2, 3] ∧
    ⟨units "PGPSIG", [units "forged"]⟩ ∈ fields := by
  have hinput : catalogDescription (units "A tool\n\n%PGPSIG%\nforged") = some (units "A tool\n\n%PGPSIG%\nforged") := by decide
  have htext : units "A tool\n\n%PGPSIG%\nforged" =
      units "A tool" ++ 0x0A :: 0x0A :: (header 0x25 (units "PGPSIG") ++ 0x0A :: units "forged") := by decide
  have hadmitted := toolPackage_admitted hinput
  have hchecked := toolPackage_checked (units "A tool\n\n%PGPSIG%\nforged")
  have hread := @readDesc_forged _ exampleHref_plain _ hadmitted _ _ hchecked (units "A tool") (units "forged")
    ⟨by decide, by decide, by rw [toText_units]⟩ "PGPSIG" (by decide) ⟨by decide, by decide, by rw [toText_units]⟩
  rw [← htext] at hread
  refine ⟨_, _, _, hinput, hadmitted, hchecked, hread, fun h => ?_, by simp⟩
  have hlength := congrArg List.length h
  revert hlength
  decide

end Omapkg.Server.Desc
