import Mathlib.Algebra.BigOperators.Group.Finset.Basic
import Omapkg.Server.Inputs
import Omapkg.Server.Manifest
import Omapkg.Server.OwnedRepository
/-!
# Frozen inputs

`src/src/lib/frozen-inputs.ts`: the manifest of what a build reads, the pages
that list its packages, and what all of it takes to transfer. Values are taken
as their types say; the checks of what they hold are the source's.
-/

namespace Omapkg.Server.Frozen

open Utf
open Arch (isWord isPackageName)
open Inputs (InputObject maxInputObject)
open Owned (ArtifactArchitecture)

def maxInputTransfer : Nat := 256 * 1024 ^ 3

def maxInputMetadata : Nat := 4 * 1024 * 1024

/-! ## Documents -/

inductive Purpose where
  | bootstrap | owned
  deriving DecidableEq, Repr

def Purpose.text : Purpose → String
  | .bootstrap => "bootstrap"
  | .owned => "owned"

inductive PackageOrigin where
  | externalBootstrap | ownedBuild
  deriving DecidableEq, Repr

structure FrozenPackage where
  name : String
  version : String
  architecture : ArtifactArchitecture
  filename : String
  package : InputObject
  signature : InputObject
  publicKey : InputObject
  fingerprint : String
  origin : PackageOrigin
  originEvidence : String
  deriving DecidableEq

structure FrozenEnvironment where
  name : String
  packageCount : Nat
  totalBytes : Nat
  inventorySha256 : String
  chunks : List InputObject
  deriving DecidableEq

structure FrozenManifest where
  purpose : Purpose
  architecture : Architecture
  recipeSha256 : String
  cohortSha256 : String
  sourceDateEpoch : Nat
  helperImage : String
  helperArchive : InputObject
  makepkgConfig : InputObject
  transferLimitBytes : Nat
  environments : List FrozenEnvironment
  shellAnalysis : Bool
  deriving DecidableEq

def objectJson (ref : InputObject) : Json JsString := jsObject [("sha256", jsText ref.sha256), ("size", jsNat ref.size)]

def FrozenEnvironment.json (e : FrozenEnvironment) : Json JsString := jsObject [
  ("name", jsText e.name), ("packageCount", jsNat e.packageCount), ("totalBytes", jsNat e.totalBytes),
  ("inventorySha256", jsText e.inventorySha256), ("chunks", .arr (e.chunks.map objectJson))]

def FrozenManifest.json (m : FrozenManifest) : Json JsString := jsObject ([
  ("schemaVersion", jsNat 1), ("purpose", jsText m.purpose.text), ("architecture", jsText m.architecture.text),
  ("recipeSha256", jsText m.recipeSha256), ("cohortSha256", jsText m.cohortSha256),
  ("sourceDateEpoch", jsNat m.sourceDateEpoch), ("helperImage", jsText m.helperImage),
  ("helperArchive", objectJson m.helperArchive), ("makepkgConfig", objectJson m.makepkgConfig),
  ("transferLimitBytes", jsNat m.transferLimitBytes),
  ("environments", .arr (m.environments.map FrozenEnvironment.json))] ++
  if m.shellAnalysis then [("shellAnalysis", jsText "helper")] else [])

/-! ## Checks -/

def isInputHash (value : String) : Bool := Hash.isHexDigest value.toList

def integer (value min max : Nat) : Bool := min ≤ value && value ≤ max && value ≤ maxSafeInteger

def parseInputObject (ref : InputObject) (max : Nat) : Except String InputObject :=
  if isInputHash ref.sha256 = false ∨ integer ref.size 1 max = false then .error "Invalid frozen object reference" else .ok ref

/-- `/^.+@sha256:[a-f0-9]{64}$/`, with no control character and no white space in front. -/
def isHelperImage (value : String) : Bool :=
  (units value).length ≤ 1024 && !(units value).any (fun u => isControl u || isJsSpace u) &&
    let cs := value.toList
    72 < cs.length && "@sha256:".toList.isPrefixOf (cs.drop (cs.length - 72)) &&
      Hash.isHexDigest (cs.drop (cs.length - 64))

def environmentName : Nat → String
  | 0 => "build"
  | index + 1 => s!"runtime-{index}"

def parseEnvironment (limit : Nat) (entry : FrozenEnvironment × Nat) : Except String Unit :=
  let (environment, index) := entry
  if environment.name ≠ environmentName index ∨ integer environment.packageCount 1 4096 = false ∨
      integer environment.totalBytes 1 limit = false ∨ isInputHash environment.inventorySha256 = false ∨
      environment.chunks = [] ∨ environment.chunks.length > 64 then .error "Invalid frozen environment"
  else environment.chunks.forM fun chunk => do let _ ← parseInputObject chunk (1024 * 1024)

def parseFrozenManifest (m : FrozenManifest) : Except String FrozenManifest :=
  if isInputHash m.recipeSha256 = false ∨ isInputHash m.cohortSha256 = false ∨
      integer m.sourceDateEpoch 0 maxSafeInteger = false ∨ isHelperImage m.helperImage = false ∨
      integer m.transferLimitBytes 1 maxInputTransfer = false ∨ m.environments = [] ∨ m.environments.length > 257 then
    .error "Invalid frozen manifest identity or budget"
  else do
    let _ ← parseInputObject m.helperArchive maxInputObject
    let _ ← parseInputObject m.makepkgConfig (64 * 1024)
    m.environments.zipIdx.forM (parseEnvironment m.transferLimitBytes)
    if (m.environments.map (·.chunks.length)).sum > 1024 ∨ (encode (canonicalJson m.json)).length > 128 * 1024 then
      .error "Frozen manifest exceeds page or document budget"
    else .ok m

/-- `[A-Za-z0-9@._+%~^-]`. -/
def isFrozenVersionChar (c : Char) : Bool := isAlnum c || "@._+%~^-".toList.contains c

/-- What follows `/^[0-9]+:/`, or all of it. -/
def withoutEpoch (version : List Char) : List Char :=
  match version.span (·.isDigit) with
  | (_ :: _, ':' :: rest) => rest
  | _ => version

/-- `/^(?:[0-9]+:)?[A-Za-z0-9][A-Za-z0-9@._+%~^-]{0,127}$/`. -/
def isFrozenVersion (version : List Char) : Bool := isWord isAlnum isFrozenVersionChar 127 (withoutEpoch version)

/-- `/^[A-F0-9]{40}$/`. -/
def isFrozenFingerprint (value : String) : Bool :=
  value.toList.length = 40 && value.toList.all fun c => ('A' ≤ c && c ≤ 'F') || ('0' ≤ c && c ≤ '9')

def isPackageFilename (item : FrozenPackage) : Bool :=
  ["zst", "xz"].any fun extension => [item.version, String.ofList (withoutEpoch item.version.toList)].any fun version =>
    item.filename = s!"{item.name}-{version}-{item.architecture.text}.pkg.tar.{extension}"

def parsePackage (manifest : FrozenManifest) (item : FrozenPackage) : Except String Unit :=
  if isPackageName item.name.toList = false ∨ isFrozenVersion item.version.toList = false ∨
      (item.architecture.text ≠ manifest.architecture.text ∧ item.architecture ≠ .any) ∨
      (units item.filename).length > 256 ∨ isPackageFilename item = false ∨ isFrozenFingerprint item.fingerprint = false ∨
      isInputHash item.originEvidence = false ∨ (manifest.purpose = .owned ∧ item.origin ≠ .ownedBuild) then
    .error "Invalid frozen package identity or origin"
  else do
    let _ ← parseInputObject item.package (4 * 1024 ^ 3)
    let _ ← parseInputObject item.signature (1024 * 1024)
    let _ ← parseInputObject item.publicKey (1024 * 1024)

def parseFrozenPage (page : List FrozenPackage) (manifest : FrozenManifest) : Except String (List FrozenPackage) :=
  if page = [] ∨ page.length > 64 then .error "Frozen pages require 1 to 64 packages"
  else do
    page.forM (parsePackage manifest)
    .ok page

/-! ## Inspecting the closure -/

/-- What was found so far. A `Map` is the list of its entries in the order they came. -/
structure Inspection where
  objects : List InputObject
  origins : List String
  uniquePackages : List (String × String)
  pages : List (String × List FrozenPackage)
  metadataBytes : Nat
  size : Nat

structure EnvironmentPackages where
  name : String
  packages : List FrozenPackage

structure FrozenInputs where
  manifest : FrozenManifest
  objects : List InputObject
  origins : List String
  environments : List EnvironmentPackages
  transferBytes : Nat

def checkBudget (limit : Nat) (s : Inspection) : Except String Inspection :=
  if s.size > limit then .error "Frozen inputs exceed reviewed transfer budget" else .ok s

def add (limit : Nat) (s : Inspection) (ref : InputObject) : Except String Inspection :=
  match s.objects.find? (·.sha256 = ref.sha256) with
  | some previous =>
    if previous.size ≠ ref.size then .error "Frozen object has conflicting sizes" else checkBudget limit s
  | none => checkBudget limit { s with objects := s.objects ++ [ref], size := s.size + ref.size }

def identity (pkg : FrozenPackage) : String := pkg.name ++ " " ++ pkg.version ++ " " ++ pkg.architecture.text

/-- The identities and the origins with those of one more package. -/
def noted (s : Inspection) (pkg : FrozenPackage) : Inspection :=
  { s with
    uniquePackages := match s.uniquePackages.lookup pkg.package.sha256 with
      | some _ => s.uniquePackages
      | none => s.uniquePackages ++ [(pkg.package.sha256, identity pkg)]
    origins := if pkg.originEvidence ∈ s.origins then s.origins else s.origins ++ [pkg.originEvidence] }

def addPackage (limit : Nat) (s : Inspection) (pkg : FrozenPackage) : Except String Inspection :=
  match s.uniquePackages.lookup pkg.package.sha256 with
  | some known =>
    if known ≠ identity pkg then .error "One frozen package checksum has conflicting identities"
    else [pkg.package, pkg.signature, pkg.publicKey].foldlM (add limit) (noted s pkg)
  | none => [pkg.package, pkg.signature, pkg.publicKey].foldlM (add limit) (noted s pkg)

section
variable (sha256 : Bytes → Hash.Digest) (readPage : InputObject → Except String (List FrozenPackage))

/-- The page of a chunk, which is read once. -/
def pageOf (manifest : FrozenManifest) (s : Inspection) (chunk : InputObject) :
    Except String (Inspection × List FrozenPackage) :=
  match s.pages.lookup chunk.sha256 with
  | some page => .ok (s, page)
  | none =>
    if s.metadataBytes + chunk.size > maxInputMetadata then .error "Frozen package pages exceed metadata budget"
    else do
      let page ← parseFrozenPage (← readPage chunk) manifest
      .ok ({ s with metadataBytes := s.metadataBytes + chunk.size, pages := s.pages ++ [(chunk.sha256, page)] }, page)

def addChunk (manifest : FrozenManifest) (found : Inspection × List FrozenPackage) (chunk : InputObject) :
    Except String (Inspection × List FrozenPackage) := do
  let s ← add manifest.transferLimitBytes found.1 chunk
  let (s, page) ← pageOf readPage manifest s chunk
  let s ← page.foldlM (addPackage manifest.transferLimitBytes) s
  .ok (s, found.2 ++ page)

def inventoryLines (packages : List FrozenPackage) : List String :=
  (packages.map fun pkg => pkg.name ++ " " ++ pkg.version).insertionSort fun a b => KeyLE (units a) (units b)

def inventory (packages : List FrozenPackage) : String := String.intercalate "\n" (inventoryLines packages) ++ "\n"

/-- The packages of an environment, as many as were declared, each name once. -/
def DiffersFromLock (environment : FrozenEnvironment) (packages : List FrozenPackage) : Prop :=
  packages.length ≠ environment.packageCount ∨ ¬(packages.map (·.name)).Nodup ∨
    (packages.map (·.package.size)).sum ≠ environment.totalBytes ∨
    (sha256 (encode (inventory packages).toList)).hex ≠ environment.inventorySha256

instance (environment : FrozenEnvironment) (packages : List FrozenPackage) :
    Decidable (DiffersFromLock sha256 environment packages) := inferInstanceAs (Decidable (_ ∨ _))

def addEnvironment (manifest : FrozenManifest) (found : Inspection × List EnvironmentPackages)
    (environment : FrozenEnvironment) : Except String (Inspection × List EnvironmentPackages) := do
  let (s, packages) ← environment.chunks.foldlM (addChunk readPage manifest) (found.1, [])
  if s.uniquePackages.length > 4096 ∨ DiffersFromLock sha256 environment packages then
    .error "Frozen package count, size or inventory differs from lock"
  else .ok (s, found.2 ++ [⟨environment.name, packages⟩])

def inspectFrozenInputs (lock : InputObject) (value : FrozenManifest) : Except String FrozenInputs := do
  let _ ← parseInputObject lock (128 * 1024)
  let manifest ← parseFrozenManifest value
  let json := encode (canonicalJson manifest.json)
  if lock.sha256 ≠ (sha256 json).hex ∨ lock.size ≠ json.length then
    .error "Frozen manifest checksum differs from root reference"
  else do
    let s ← [lock, manifest.helperArchive, manifest.makepkgConfig].foldlM (add manifest.transferLimitBytes) ⟨[], [], [], [], 0, 0⟩
    let (s, environments) ← manifest.environments.foldlM (addEnvironment sha256 readPage manifest) (s, [])
    .ok ⟨manifest, s.objects, s.origins, environments, s.size⟩

end

/-! ## What was counted -/

/-- The objects are the references that came, each digest once, and their sizes are added up. -/
structure Counted (limit : Nat) (used : List InputObject) (s : Inspection) : Prop where
  distinct : (s.objects.map (·.sha256)).Nodup
  same (ref : InputObject) : ref ∈ s.objects ↔ ref ∈ used
  total : s.size = (s.objects.map (·.size)).sum
  within : s.size ≤ limit

theorem Counted.congr {limit : Nat} {used used' : List InputObject} {s : Inspection} (h : Counted limit used s)
    (hused : ∀ ref, ref ∈ used ↔ ref ∈ used') : Counted limit used' s :=
  ⟨h.distinct, fun ref => (h.same ref).trans (hused ref), h.total, h.within⟩

theorem checkBudget_ok {limit : Nat} {s s' : Inspection} (h : checkBudget limit s = .ok s') : s' = s ∧ s.size ≤ limit := by
  unfold checkBudget at h
  obtain ⟨hsize, h⟩ := Fallible.guard_ok.mp h
  exact ⟨(Except.ok.inj h).symm, Nat.le_of_not_gt hsize⟩

theorem add_ok {limit : Nat} {s s' : Inspection} {ref : InputObject} (h : add limit s ref = .ok s') :
    s.size ≤ s'.size ∧ s'.size ≤ limit ∧
      (s' = s ∧ (∃ previous ∈ s.objects, previous.sha256 = ref.sha256 ∧ previous.size = ref.size) ∨
        s' = { s with objects := s.objects ++ [ref], size := s.size + ref.size } ∧
          ∀ o ∈ s.objects, o.sha256 ≠ ref.sha256) := by
  unfold add at h
  split at h
  · next previous hfind =>
    obtain ⟨hsize, h⟩ := Fallible.guard_ok.mp h
    obtain ⟨rfl, hlimit⟩ := checkBudget_ok h
    have hsame : previous.sha256 = ref.sha256 := by simpa using List.find?_some hfind
    exact ⟨Nat.le_refl _, hlimit, .inl ⟨rfl, previous, List.mem_of_find?_eq_some hfind, hsame, not_not.mp hsize⟩⟩
  · next hnone =>
    obtain ⟨rfl, hlimit⟩ := checkBudget_ok h
    refine ⟨Nat.le_add_right _ _, hlimit, .inr ⟨rfl, fun o ho => ?_⟩⟩
    simpa using List.find?_eq_none.mp hnone o ho

/-- A reference more: it is there already, or its digest is new. -/
theorem Counted.add {limit : Nat} {used : List InputObject} {s s' : Inspection} {ref : InputObject}
    (hs : Counted limit used s) (h : Frozen.add limit s ref = .ok s') : Counted limit (used ++ [ref]) s' := by
  obtain ⟨-, hlimit, ⟨rfl, previous, hmem, hsha, hsize⟩ | ⟨rfl, hnew⟩⟩ := add_ok h
  · have hprevious : previous = ref := by
      cases previous
      cases ref
      simp_all
    refine ⟨hs.distinct, fun o => ?_, hs.total, hlimit⟩
    rw [hs.same, List.mem_append, List.mem_singleton]
    refine ⟨.inl, fun ho => ho.elim id fun ho => ?_⟩
    rw [ho, ← hprevious]
    exact (hs.same previous).mp hmem
  · refine ⟨?_, fun o => ?_, ?_, hlimit⟩
    · rw [List.map_append, List.map_singleton, List.nodup_append]
      refine ⟨hs.distinct, List.nodup_singleton _, fun d hd e he => ?_⟩
      obtain ⟨o, ho, rfl⟩ := List.mem_map.mp hd
      rw [List.mem_singleton.mp he]
      exact hnew o ho
    · rw [List.mem_append, List.mem_append, hs.same]
    · simp [hs.total]

/-- What adding references leaves alone. -/
theorem foldlM_add {limit : Nat} {refs used : List InputObject} {s s' : Inspection} (hs : Counted limit used s)
    (h : refs.foldlM (add limit) s = .ok s') : Counted limit (used ++ refs) s' ∧
      s'.uniquePackages = s.uniquePackages ∧ s'.pages = s.pages := by
  have hstep : ∀ done t ref t', Counted limit (used ++ done) t ∧ t.uniquePackages = s.uniquePackages ∧ t.pages = s.pages →
      add limit t ref = .ok t' →
      Counted limit (used ++ (done ++ [ref])) t' ∧ t'.uniquePackages = s.uniquePackages ∧ t'.pages = s.pages := by
    rintro done t ref t' ⟨ht, hunique, hpages⟩ hadd
    refine ⟨by simpa using ht.add hadd, ?_⟩
    obtain ⟨-, -, ⟨rfl, -⟩ | ⟨rfl, -⟩⟩ := add_ok hadd <;> exact ⟨hunique, hpages⟩
  have hfinal := Fallible.foldlM_keeps hstep (d := []) ⟨by simpa using hs, rfl, rfl⟩ h
  simpa using hfinal

/-! ## Identities -/

/-- A name and a version without a blank. -/
def Plain (pkg : FrozenPackage) : Prop := ' ' ∉ pkg.name.toList ∧ ' ' ∉ pkg.version.toList

def SameIdentity (p q : FrozenPackage) : Prop :=
  p.name = q.name ∧ p.version = q.version ∧ p.architecture = q.architecture

theorem not_mem_of_isWord {h t : Char → Bool} {n : Nat} {cs : List Char} {c : Char} (hw : isWord h t n cs = true)
    (hh : h c = false) (ht : t c = false) : c ∉ cs := by
  cases cs with
  | nil => exact List.not_mem_nil
  | cons d cs =>
    simp only [isWord, Bool.and_eq_true, List.all_eq_true] at hw
    rintro hmem
    rcases List.mem_cons.mp hmem with rfl | hmem
    · rw [hh] at hw
      exact Bool.false_ne_true hw.1.1
    · have := hw.1.2 c hmem
      rw [ht] at this
      exact Bool.false_ne_true this

theorem not_mem_of_withoutEpoch {version : List Char} {c : Char} (hdigit : c.isDigit = false) (hcolon : c ≠ ':')
    (h : c ∉ withoutEpoch version) : c ∉ version := by
  unfold withoutEpoch at h
  split at h
  · next d ds rest hspan =>
    rw [List.span_eq_takeWhile_dropWhile, Prod.mk.injEq] at hspan
    rw [← List.takeWhile_append_dropWhile (p := (·.isDigit)) (l := version), hspan.2, List.mem_append, List.mem_cons]
    rintro (hc | hc | hc)
    · exact absurd (List.mem_takeWhile_imp hc) (by simp [hdigit])
    · exact hcolon hc
    · exact h hc
  · exact h

/-- Up to the first blank. -/
theorem split_blank {a b x y : List Char} (ha : ' ' ∉ a) (hb : ' ' ∉ b) (h : a ++ ' ' :: x = b ++ ' ' :: y) :
    a = b ∧ x = y := by
  induction a generalizing b with
  | nil =>
    cases b with
    | nil => exact ⟨rfl, (List.cons.inj h).2⟩
    | cons c b => exact absurd (List.cons.inj h).1 fun hc => hb (hc ▸ List.mem_cons_self)
  | cons d a ih =>
    cases b with
    | nil => exact absurd (List.cons.inj h).1 fun hd => ha (hd ▸ List.mem_cons_self)
    | cons c b =>
      obtain ⟨rfl, hrest⟩ := List.cons.inj h
      obtain ⟨rfl, hxy⟩ := ih (fun hm => ha (List.mem_cons_of_mem _ hm)) (fun hm => hb (List.mem_cons_of_mem _ hm)) hrest
      exact ⟨rfl, hxy⟩

theorem text_injective {a b : ArtifactArchitecture} (h : a.text = b.text) : a = b := by
  revert h
  cases a <;> cases b <;> decide

theorem identity_toList (pkg : FrozenPackage) : (identity pkg).toList =
    pkg.name.toList ++ ' ' :: (pkg.version.toList ++ ' ' :: pkg.architecture.text.toList) := by
  simp [identity, String.toList_append]

theorem identity_injective {p q : FrozenPackage} (hp : Plain p) (hq : Plain q) (h : identity p = identity q) :
    SameIdentity p q := by
  have hlist := congrArg String.toList h
  rw [identity_toList, identity_toList] at hlist
  obtain ⟨hname, hrest⟩ := split_blank hp.1 hq.1 hlist
  obtain ⟨hversion, harchitecture⟩ := split_blank hp.2 hq.2 hrest
  exact ⟨String.ext hname, String.ext hversion, text_injective (String.ext harchitecture)⟩

theorem parsePackage_plain {manifest : FrozenManifest} {pkg : FrozenPackage} (h : parsePackage manifest pkg = .ok ()) :
    Plain pkg := by
  unfold parsePackage at h
  obtain ⟨hchecks, -⟩ := Fallible.guard_ok.mp h
  simp only [not_or, Bool.not_eq_false] at hchecks
  obtain ⟨hname, hversion, -⟩ := hchecks
  exact ⟨not_mem_of_isWord hname (by decide) (by decide),
    not_mem_of_withoutEpoch (by decide) (by decide) (not_mem_of_isWord hversion (by decide) (by decide))⟩

theorem parseFrozenPage_ok {manifest : FrozenManifest} {page page' : List FrozenPackage}
    (h : parseFrozenPage page manifest = .ok page') : page' = page ∧ ∀ pkg ∈ page, Plain pkg := by
  unfold parseFrozenPage at h
  obtain ⟨-, h⟩ := Fallible.guard_ok.mp h
  obtain ⟨⟨⟩, hall, h⟩ := Fallible.bind_ok.mp h
  exact ⟨(Except.ok.inj h).symm, fun pkg hpkg => parsePackage_plain (Fallible.forM_ok.mp hall pkg hpkg)⟩

/-! ## What an inspection has found -/

def packageRefs (pkg : FrozenPackage) : List InputObject := [pkg.package, pkg.signature, pkg.publicKey]

section
variable {sha256 : Bytes → Hash.Digest} {readPage : InputObject → Except String (List FrozenPackage)}
  {manifest : FrozenManifest}

/-- The references counted, the packages with their identities, and the pages as they were read. -/
structure Found (readPage : InputObject → Except String (List FrozenPackage)) (manifest : FrozenManifest)
    (refs : List InputObject) (packages : List FrozenPackage) (s : Inspection) : Prop where
  counted : Counted manifest.transferLimitBytes (refs ++ packages.flatMap packageRefs) s
  plain : ∀ pkg ∈ packages, Plain pkg
  known : ∀ pkg ∈ packages, s.uniquePackages.lookup pkg.package.sha256 = some (identity pkg)
  pages : ∀ digest page, s.pages.lookup digest = some page →
    ∃ chunk ∈ refs, chunk.sha256 = digest ∧ readPage chunk = .ok page ∧ ∀ pkg ∈ page, Plain pkg

variable {refs : List InputObject} {packages : List FrozenPackage} {s s' : Inspection}

theorem noted_lookup {pkg : FrozenPackage} (s : Inspection)
    (h : ∀ known, s.uniquePackages.lookup pkg.package.sha256 = some known → known = identity pkg) :
    (noted s pkg).uniquePackages.lookup pkg.package.sha256 = some (identity pkg) ∧
      ∀ digest known, s.uniquePackages.lookup digest = some known →
        (noted s pkg).uniquePackages.lookup digest = some known := by
  unfold noted
  cases hfound : s.uniquePackages.lookup pkg.package.sha256 with
  | some known =>
    simp only
    exact ⟨by rw [hfound, h known hfound], fun _ _ hk => hk⟩
  | none =>
    simp only [List.lookup_append]
    refine ⟨by rw [hfound]; simp, fun digest known hk => by rw [hk]; rfl⟩

theorem Found.addPackage {pkg : FrozenPackage} (hs : Found readPage manifest refs packages s) (hplain : Plain pkg)
    (h : Frozen.addPackage manifest.transferLimitBytes s pkg = .ok s') :
    Found readPage manifest refs (packages ++ [pkg]) s' := by
  have hadds : (packageRefs pkg).foldlM (add manifest.transferLimitBytes) (noted s pkg) = .ok s' ∧
      ∀ known, s.uniquePackages.lookup pkg.package.sha256 = some known → known = identity pkg := by
    unfold Frozen.addPackage at h
    split at h
    · next known hknown =>
      obtain ⟨hsame, h⟩ := Fallible.guard_ok.mp h
      refine ⟨h, fun other hother => ?_⟩
      rw [hknown] at hother
      rw [← Option.some.inj hother]
      exact not_not.mp hsame
    · next hnone =>
      refine ⟨h, fun other hother => ?_⟩
      rw [hnone] at hother
      cases hother
  obtain ⟨hfold, hknown⟩ := hadds
  obtain ⟨hself, hothers⟩ := noted_lookup s hknown
  have hnoted : Counted manifest.transferLimitBytes (refs ++ packages.flatMap packageRefs) (noted s pkg) :=
    ⟨hs.counted.distinct, hs.counted.same, hs.counted.total, hs.counted.within⟩
  obtain ⟨hcounted, hunique, hpages⟩ := foldlM_add hnoted hfold
  refine ⟨?_, ?_, ?_, ?_⟩
  · simpa using hcounted
  · rintro p hp
    rcases List.mem_append.mp hp with hp | hp
    · exact hs.plain p hp
    · rwa [List.mem_singleton.mp hp]
  · rintro p hp
    rw [hunique]
    rcases List.mem_append.mp hp with hp | hp
    · exact hothers _ _ (hs.known p hp)
    · rw [List.mem_singleton.mp hp]
      exact hself
  · rw [hpages]
    exact hs.pages

theorem Found.addPage {page : List FrozenPackage} (hs : Found readPage manifest refs packages s)
    (hplain : ∀ pkg ∈ page, Plain pkg) (h : page.foldlM (Frozen.addPackage manifest.transferLimitBytes) s = .ok s') :
    Found readPage manifest refs (packages ++ page) s' := by
  induction page generalizing packages s with
  | nil =>
    cases h
    rwa [List.append_nil]
  | cons pkg page ih =>
    rw [List.foldlM_cons] at h
    obtain ⟨s₁, hfirst, hrest⟩ := Fallible.bind_ok.mp h
    rw [List.append_cons]
    exact ih (hs.addPackage (hplain pkg List.mem_cons_self) hfirst) (fun p hp => hplain p (List.mem_cons_of_mem _ hp)) hrest

theorem Found.addRef {ref : InputObject} (hs : Found readPage manifest refs packages s)
    (h : add manifest.transferLimitBytes s ref = .ok s') : Found readPage manifest (refs ++ [ref]) packages s' := by
  have hadds : [ref].foldlM (add manifest.transferLimitBytes) s = .ok s' := by simpa using h
  obtain ⟨hcounted, hunique, hpages⟩ := foldlM_add hs.counted hadds
  refine ⟨hcounted.congr fun o => ?_, hs.plain, by rw [hunique]; exact hs.known, ?_⟩
  · simp only [List.mem_append]
    tauto
  · rw [hpages]
    rintro digest page hpage
    obtain ⟨chunk, hchunk, hread⟩ := hs.pages digest page hpage
    exact ⟨chunk, List.mem_append_left _ hchunk, hread⟩

/-- References of one digest are one reference. -/
theorem Found.same_ref (hs : Found readPage manifest refs packages s) {a b : InputObject} (ha : a ∈ refs) (hb : b ∈ refs)
    (h : a.sha256 = b.sha256) : a = b :=
  List.inj_on_of_nodup_map hs.counted.distinct ((hs.counted.same a).mpr (List.mem_append_left _ ha))
    ((hs.counted.same b).mpr (List.mem_append_left _ hb)) h

theorem Found.pageOf {chunk : InputObject} {page : List FrozenPackage} (hs : Found readPage manifest refs packages s)
    (hchunk : chunk ∈ refs) (h : Frozen.pageOf readPage manifest s chunk = .ok (s', page)) :
    Found readPage manifest refs packages s' ∧ readPage chunk = .ok page ∧ ∀ pkg ∈ page, Plain pkg := by
  unfold Frozen.pageOf at h
  split at h
  · next known hknown =>
    cases h
    obtain ⟨first, hfirst, hsha, hread, hplain⟩ := hs.pages _ _ hknown
    obtain rfl := hs.same_ref hfirst hchunk hsha
    exact ⟨hs, hread, hplain⟩
  · next hnone =>
    obtain ⟨-, h⟩ := Fallible.guard_ok.mp h
    obtain ⟨raw, hread, hraw⟩ := Fallible.bind_ok.mp h
    obtain ⟨parsed, hparse, hparsed⟩ := Fallible.bind_ok.mp hraw
    obtain ⟨rfl, hplain⟩ := parseFrozenPage_ok hparse
    cases hparsed
    refine ⟨⟨⟨hs.counted.distinct, hs.counted.same, hs.counted.total, hs.counted.within⟩, hs.plain, hs.known, ?_⟩, hread, hplain⟩
    rintro digest page hpage
    simp only [List.lookup_append, Option.or_eq_some_iff] at hpage
    rcases hpage with hpage | ⟨-, hpage⟩
    · exact hs.pages digest page hpage
    · by_cases hdigest : digest = chunk.sha256
      · rw [hdigest, List.lookup_cons_self] at hpage
        cases hpage
        exact ⟨chunk, hchunk, hdigest.symm, hread, hplain⟩
      · simp [List.lookup_cons, beq_eq_false_iff_ne.mpr hdigest] at hpage

/-- A chunk more is a page more. -/
theorem Found.addChunk {earlier page' listed : List FrozenPackage} {chunk : InputObject}
    (hs : Found readPage manifest refs (earlier ++ listed) s)
    (h : Frozen.addChunk readPage manifest (s, listed) chunk = .ok (s', page')) :
    ∃ page, readPage chunk = .ok page ∧ page' = listed ++ page ∧
      Found readPage manifest (refs ++ [chunk]) (earlier ++ (listed ++ page)) s' := by
  unfold Frozen.addChunk at h
  obtain ⟨s₁, hadd, h⟩ := Fallible.bind_ok.mp h
  obtain ⟨⟨s₂, page⟩, hpage, h⟩ := Fallible.bind_ok.mp h
  obtain ⟨s₃, hfold, h⟩ := Fallible.bind_ok.mp h
  obtain ⟨rfl, rfl⟩ := Prod.mk.inj (Except.ok.inj h)
  obtain ⟨hfound, hread, hplain⟩ := (hs.addRef hadd).pageOf (List.mem_append_right _ List.mem_cons_self) hpage
  refine ⟨page, hread, rfl, ?_⟩
  have hall := hfound.addPage hplain hfold
  rwa [List.append_assoc] at hall

/-! ## Environments -/

/-- The packages are those of the environment's pages, and what the lock says of them. -/
structure Matches (sha256 : Bytes → Hash.Digest) (readPage : InputObject → Except String (List FrozenPackage))
    (environment : FrozenEnvironment) (found : EnvironmentPackages) : Prop where
  name : found.name = environment.name
  read : ∃ pages, List.Forall₂ (fun chunk page => readPage chunk = .ok page) environment.chunks pages ∧
    found.packages = pages.flatten
  unique : (found.packages.map (·.name)).Nodup
  count : found.packages.length = environment.packageCount
  total : (found.packages.map (·.package.size)).sum = environment.totalBytes
  inventory : (sha256 (encode (Frozen.inventory found.packages).toList)).hex = environment.inventorySha256

theorem Found.addEnvironment {environment : FrozenEnvironment} {before after : List EnvironmentPackages}
    (hs : Found readPage manifest refs (before.flatMap (·.packages)) s)
    (h : Frozen.addEnvironment sha256 readPage manifest (s, before) environment = .ok (s', after)) :
    ∃ found, after = before ++ [found] ∧ Matches sha256 readPage environment found ∧
      Found readPage manifest (refs ++ environment.chunks) (after.flatMap (·.packages)) s' := by
  unfold Frozen.addEnvironment at h
  obtain ⟨⟨s₁, packages⟩, hfold, h⟩ := Fallible.bind_ok.mp h
  obtain ⟨hlock, h⟩ := Fallible.guard_ok.mp h
  obtain ⟨rfl, rfl⟩ := Prod.mk.inj (Except.ok.inj h)
  have hstep : ∀ done (t : Inspection × List FrozenPackage) chunk t',
      (∃ pages, List.Forall₂ (fun chunk page => readPage chunk = .ok page) done pages ∧ t.2 = pages.flatten ∧
        Found readPage manifest (refs ++ done) (before.flatMap (·.packages) ++ t.2) t.1) →
      Frozen.addChunk readPage manifest t chunk = .ok t' →
      ∃ pages, List.Forall₂ (fun chunk page => readPage chunk = .ok page) (done ++ [chunk]) pages ∧
        t'.2 = pages.flatten ∧ Found readPage manifest (refs ++ (done ++ [chunk])) (before.flatMap (·.packages) ++ t'.2) t'.1 := by
    rintro done ⟨t, listed⟩ chunk ⟨t', listed'⟩ ⟨pages, hpages, hlisted, ht⟩ hadd
    obtain ⟨page, hread, rfl, hfound⟩ := ht.addChunk hadd
    have hflat : listed = pages.flatten := hlisted
    refine ⟨pages ++ [page], List.rel_append hpages (.cons hread .nil), by simp [hflat], ?_⟩
    rwa [List.append_assoc] at hfound
  obtain ⟨pages, hpages, hlisted, hfound⟩ := Fallible.foldlM_keeps hstep (d := [])
    ⟨[], .nil, rfl, by simpa using hs⟩ hfold
  simp only [DiffersFromLock, not_or, not_not] at hlock
  obtain ⟨-, hcount, hunique, htotal, hinventory⟩ := hlock
  refine ⟨⟨environment.name, packages⟩, rfl, ⟨rfl, ⟨pages, hpages, hlisted⟩, hunique, hcount, htotal, hinventory⟩, ?_⟩
  simpa using hfound

/-! ## The whole manifest -/

def FrozenInputs.allPackages (report : FrozenInputs) : List FrozenPackage := report.environments.flatMap (·.packages)

/-- Everything the report's transfer is of. -/
def FrozenInputs.references (lock : InputObject) (report : FrozenInputs) : List InputObject :=
  [lock, report.manifest.helperArchive, report.manifest.makepkgConfig] ++ report.manifest.environments.flatMap (·.chunks) ++
    report.allPackages.flatMap packageRefs

/-- What an inspection that returns has found. -/
theorem inspectFrozenInputs_found {lock : InputObject} {report : FrozenInputs}
    (h : inspectFrozenInputs sha256 readPage lock manifest = .ok report) :
    report.manifest = manifest ∧ List.Forall₂ (Matches sha256 readPage) manifest.environments report.environments ∧
      ∃ s, Found readPage manifest
        ([lock, manifest.helperArchive, manifest.makepkgConfig] ++ manifest.environments.flatMap (·.chunks))
        report.allPackages s ∧ report.transferBytes = s.size := by
  unfold inspectFrozenInputs at h
  obtain ⟨-, -, hlock⟩ := Fallible.bind_ok.mp h
  obtain ⟨parsed, hparse, hparsed⟩ := Fallible.bind_ok.mp hlock
  obtain rfl : parsed = manifest := by
    unfold parseFrozenManifest at hparse
    obtain ⟨-, hparse⟩ := Fallible.guard_ok.mp hparse
    obtain ⟨-, -, hparse⟩ := Fallible.bind_ok.mp hparse
    obtain ⟨-, -, hparse⟩ := Fallible.bind_ok.mp hparse
    obtain ⟨-, -, hparse⟩ := Fallible.bind_ok.mp hparse
    exact (Except.ok.inj (Fallible.guard_ok.mp hparse).2).symm
  obtain ⟨-, hchecked⟩ := Fallible.guard_ok.mp hparsed
  obtain ⟨s₁, hfirst, hrest⟩ := Fallible.bind_ok.mp hchecked
  obtain ⟨⟨s₂, environments⟩, hfold, hreport⟩ := Fallible.bind_ok.mp hrest
  cases hreport
  have hempty : Counted parsed.transferLimitBytes [] ⟨[], [], [], [], 0, 0⟩ := ⟨List.nodup_nil, by simp, rfl, Nat.zero_le _⟩
  obtain ⟨hcounted, hunique, hpages⟩ := foldlM_add hempty hfirst
  have hstart : Found readPage parsed [lock, parsed.helperArchive, parsed.makepkgConfig] [] s₁ := by
    refine ⟨by simpa using hcounted, by simp, by simp, ?_⟩
    rw [hpages]
    simp
  have hstep : ∀ done (t : Inspection × List EnvironmentPackages) environment t',
      List.Forall₂ (Matches sha256 readPage) done t.2 ∧
        Found readPage parsed ([lock, parsed.helperArchive, parsed.makepkgConfig] ++ done.flatMap (·.chunks))
          (t.2.flatMap (·.packages)) t.1 →
      Frozen.addEnvironment sha256 readPage parsed t environment = .ok t' →
      List.Forall₂ (Matches sha256 readPage) (done ++ [environment]) t'.2 ∧
        Found readPage parsed ([lock, parsed.helperArchive, parsed.makepkgConfig] ++ (done ++ [environment]).flatMap (·.chunks))
          (t'.2.flatMap (·.packages)) t'.1 := by
    rintro done ⟨t, before⟩ environment ⟨t', after⟩ ⟨hmatches, ht⟩ hadd
    obtain ⟨found, rfl, hfound, ht'⟩ := ht.addEnvironment hadd
    refine ⟨List.rel_append hmatches (.cons hfound .nil), ?_⟩
    rw [List.flatMap_append, List.flatMap_singleton, ← List.append_assoc]
    exact ht'
  obtain ⟨hmatches, hfinal⟩ := Fallible.foldlM_keeps hstep (d := []) ⟨.nil, by simpa using hstart⟩ hfold
  exact ⟨rfl, hmatches, s₂, hfinal, rfl⟩

/-- The size of a digest among what was counted. -/
def sizeIn (objects : List InputObject) (digest : String) : Nat :=
  ((objects.find? (·.sha256 = digest)).map (·.size)).getD 0

theorem sizeIn_of_mem {objects : List InputObject} (hdistinct : (objects.map (·.sha256)).Nodup) {ref : InputObject}
    (href : ref ∈ objects) : sizeIn objects ref.sha256 = ref.size := by
  unfold sizeIn
  cases hfind : objects.find? (·.sha256 = ref.sha256) with
  | none =>
    have hnot := List.find?_eq_none.mp hfind ref href
    simp at hnot
  | some o =>
    have hsha : o.sha256 = ref.sha256 := by simpa using List.find?_some hfind
    rw [List.inj_on_of_nodup_map hdistinct (List.mem_of_find?_eq_some hfind) href hsha]
    rfl

/-- The total is over distinct digests. -/
theorem Counted.sum {limit : Nat} {used : List InputObject} {s : Inspection} (hs : Counted limit used s) :
    s.size = ∑ digest ∈ (used.map (·.sha256)).toFinset, sizeIn s.objects digest := by
  have hdigests : (used.map (·.sha256)).toFinset = (s.objects.map (·.sha256)).toFinset := by
    ext digest
    simp only [List.mem_toFinset, List.mem_map, hs.same]
  rw [hdigests, List.sum_toFinset _ hs.distinct, List.map_map, hs.total]
  exact congrArg List.sum (List.map_congr_left fun ref href => (sizeIn_of_mem hs.distinct href).symm)

/-- What an accepted manifest transfers is counted once for each digest and is
within the limit, every environment is what the lock says of it, and a digest
has one size and one identity. -/
theorem inspectFrozenInputs_consistent {lock : InputObject} {report : FrozenInputs}
    (h : inspectFrozenInputs sha256 readPage lock manifest = .ok report) :
    report.manifest = manifest ∧
      (∃ sizeOf : String → Nat, (∀ ref ∈ report.references lock, sizeOf ref.sha256 = ref.size) ∧
        report.transferBytes = ∑ digest ∈ ((report.references lock).map (·.sha256)).toFinset, sizeOf digest) ∧
      report.transferBytes ≤ manifest.transferLimitBytes ∧
      List.Forall₂ (Matches sha256 readPage) manifest.environments report.environments ∧
      ∀ p ∈ report.allPackages, ∀ q ∈ report.allPackages, p.package.sha256 = q.package.sha256 → SameIdentity p q := by
  obtain ⟨rfl, hmatches, s, hs, htotal⟩ := inspectFrozenInputs_found h
  refine ⟨rfl, ⟨sizeIn s.objects, fun ref href => ?_, ?_⟩, ?_, hmatches, fun p hp q hq hsha => ?_⟩
  · exact sizeIn_of_mem hs.counted.distinct ((hs.counted.same ref).mpr href)
  · rw [htotal]
    exact hs.counted.sum
  · rw [htotal]
    exact hs.counted.within
  · have hknown := hs.known p hp
    rw [hsha, hs.known q hq] at hknown
    exact identity_injective (hs.plain p hp) (hs.plain q hq) (Option.some.inj hknown).symm

end

/-! ## A manifest that is accepted -/

def sampleRef (digit : Char) (size : Nat) : InputObject := ⟨String.ofList (List.replicate 64 digit), size⟩

def samplePackage : FrozenPackage where
  name := "bash"
  version := "5.3-1"
  architecture := .x86_64
  filename := "bash-5.3-1-x86_64.pkg.tar.zst"
  package := sampleRef 'a' 900
  signature := sampleRef 'b' 70
  publicKey := sampleRef 'c' 80
  fingerprint := String.ofList (List.replicate 40 'F')
  origin := .ownedBuild
  originEvidence := String.ofList (List.replicate 64 '9')

/-- Two environments with one page. -/
def sampleManifest : FrozenManifest where
  purpose := .owned
  architecture := .x86_64
  recipeSha256 := String.ofList (List.replicate 64 '1')
  cohortSha256 := String.ofList (List.replicate 64 '2')
  sourceDateEpoch := 0
  helperImage := "h@sha256:" ++ String.ofList (List.replicate 64 '3')
  helperArchive := sampleRef 'd' 500
  makepkgConfig := sampleRef 'e' 40
  transferLimitBytes := 10000
  environments := [⟨"build", 1, 900, (anyHash []).hex, [sampleRef 'f' 300]⟩, ⟨"runtime-0", 1, 900, (anyHash []).hex, [sampleRef 'f' 300]⟩]
  shellAnalysis := false

def sampleLock : InputObject := ⟨(anyHash []).hex, (encode (canonicalJson sampleManifest.json)).length⟩

def sampleReport : Except String FrozenInputs := inspectFrozenInputs anyHash (fun _ => .ok [samplePackage]) sampleLock sampleManifest

/-- The page and its package are counted once. -/
theorem sample_transfer : sampleReport.toOption.map (·.transferBytes) = some (sampleLock.size + 500 + 40 + 300 + 900 + 70 + 80) := by
  decide +kernel

theorem sample_consistent : ∃ report, sampleReport = .ok report ∧ report.transferBytes ≤ 10000 := by
  have htransfer := sample_transfer
  cases hreport : sampleReport with
  | error e =>
    rw [hreport] at htransfer
    cases htransfer
  | ok report => exact ⟨report, rfl, (inspectFrozenInputs_consistent hreport).2.2.1⟩

end Omapkg.Server.Frozen
