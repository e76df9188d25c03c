import Omapkg.Lib.Fallible
import Omapkg.Server.Validate
/-!
# URLs and storage keys of releases

Where `distribution-releases.ts` publishes and stores a manifest. `origin` is
`PUBLIC_ORIGIN`.
-/

namespace Omapkg.Server

open Utf

/-! ## encodeURIComponent -/

/-- The characters `encodeURIComponent` leaves alone. -/
def isUriUnreserved (c : Char) : Bool := isAlnum c || "-_.!~*'()".toList.contains c

def upperHexDigit (n : Nat) : Char := if n < 10 then Char.ofNat (48 + n) else Char.ofNat (55 + n)

def percentByte (b : UInt8) : List Char := ['%', upperHexDigit (b.toNat / 16), upperHexDigit (b.toNat % 16)]

/-- A code point, escaped byte by byte; a lone surrogate throws. -/
def encodeUriPoint : CodePoint → Option (List Char)
  | .scalar c => if isUriUnreserved c then some [c] else some ((String.utf8EncodeChar c).flatMap percentByte)
  | .lone _ => none

def encodeURIComponent (s : JsString) : Option JsString :=
  ((codePoints s).mapM encodeUriPoint).map fun parts => units (String.ofList parts.flatten)

/-! ## Places -/

/-- `origin.replace(/\/$/, '')`. -/
def stripSlash (origin : JsString) : JsString :=
  if origin.getLast? = some 0x2F then origin.dropLast else origin

/-- The segment of a kind in public paths. -/
def ReleaseKind.publicSegment : ReleaseKind → String
  | .system => "releases"
  | .opr => "opr"
  | .resolvedTransaction => "transactions"

def publicManifestUrl (origin : JsString) (kind : ReleaseKind) (channel : Channel) (releaseId : JsString) :
    Option JsString := do
  let encoded ← encodeURIComponent releaseId
  some (stripSlash origin ++ units ("/repo/" ++ kind.publicSegment ++ "/" ++ channel.text ++ "/") ++ encoded ++
    units "/manifest.json")

def publicManifestSignatureUrl (origin : JsString) (kind : ReleaseKind) (channel : Channel)
    (releaseId : JsString) : Option JsString :=
  (publicManifestUrl origin kind channel releaseId).map (· ++ units ".sig")

/-- The URL of a package chunk or a changelog, by `segment`. -/
def publicReleaseObjectUrl (origin : JsString) (segment : String) (digest : JsString) : JsString :=
  stripSlash origin ++ units ("/repo/distribution/" ++ segment ++ "/") ++ digest ++ units ".json"

/-! ## Release ids in URLs -/

theorem isIdChar_lt {c : Char} (h : isIdChar c = true) : c.toNat < 128 := by
  simp only [isIdChar, isAlnum, Bool.or_eq_true, Bool.and_eq_true, decide_eq_true_eq] at h
  rcases h with ((((⟨-, h⟩ | ⟨-, h⟩) | ⟨-, h⟩) | rfl) | rfl) | rfl
  · exact Nat.lt_of_le_of_lt (show c.toNat ≤ 'Z'.toNat from h) (by decide)
  · exact Nat.lt_of_le_of_lt (show c.toNat ≤ 'z'.toNat from h) (by decide)
  · exact Nat.lt_of_le_of_lt (show c.toNat ≤ '9'.toNat from h) (by decide)
  · decide
  · decide
  · decide

/-- Only an ASCII unit looks like a character of an id. -/
theorem idUnit_lt {u : UInt16} (h : isIdChar (Char.ofNat u.toNat) = true) : u.toNat < 128 := by
  by_cases hv : u.toNat.isValidChar
  · have hlt := isIdChar_lt h
    rwa [toNat_ofNat hv] at hlt
  · rw [Char.ofNat, dif_neg hv] at h
    exact absurd h (by decide)

theorem isAscii_of_id {s : JsString} (h : ∀ c ∈ ascii s, isIdChar c = true) : IsAscii s :=
  fun _ hu => idUnit_lt (h _ (List.mem_map_of_mem hu))

theorem isUriUnreserved_of_id {c : Char} (h : isIdChar c = true) : isUriUnreserved c = true := by
  simp only [isIdChar, Bool.or_eq_true, decide_eq_true_eq] at h
  rcases h with ((h | rfl) | rfl) | rfl
  · simp only [isUriUnreserved, h, Bool.true_or]
  · decide
  · decide
  · decide

/-- A release id stands in a URL as it is. -/
theorem encodeURIComponent_id {s : JsString} (h : ∀ c ∈ ascii s, isIdChar c = true) :
    encodeURIComponent s = some s := by
  have ha := isAscii_of_id h
  have hparts : ∀ cs : List Char, (∀ c ∈ cs, isIdChar c = true) →
      (cs.map CodePoint.scalar).mapM encodeUriPoint = some (cs.map fun c => [c]) := by
    intro cs hcs
    induction cs with
    | nil => rfl
    | cons c cs ih =>
      have hc : encodeUriPoint (.scalar c) = some [c] := by
        rw [encodeUriPoint, if_pos (isUriUnreserved_of_id (hcs c List.mem_cons_self))]
      rw [List.map_cons, List.mapM_cons, hc, ih fun d hd => hcs d (List.mem_cons_of_mem _ hd)]
      rfl
  have hpoints : codePoints s = (ascii s).map CodePoint.scalar := by
    rw [codePoints_ascii ha, ascii, List.map_map]; rfl
  have hflat : ∀ cs : List Char, (cs.map fun c => [c]).flatten = cs := by
    intro cs
    induction cs with
    | nil => rfl
    | cons c cs ih => rw [List.map_cons, List.flatten_cons, ih]; rfl
  have htext : String.ofList (ascii s) = toText s := by
    rw [← String.toList_inj, String.toList_ofList, toText_ascii ha]; rfl
  rw [encodeURIComponent, hpoints, hparts _ h, Option.map_some, hflat, htext, units_toText ha]

/-- The public URL of a manifest whose release id needs no escape. -/
def plainManifestUrl (origin : JsString) (kind : ReleaseKind) (channel : Channel) (releaseId : JsString) :
    JsString :=
  stripSlash origin ++ units ("/repo/" ++ kind.publicSegment ++ "/" ++ channel.text ++ "/") ++ releaseId ++
    units "/manifest.json"

theorem publicManifestUrl_id {origin : JsString} {kind : ReleaseKind} {channel : Channel} {releaseId : JsString}
    (h : ∀ c ∈ ascii releaseId, isIdChar c = true) :
    publicManifestUrl origin kind channel releaseId = some (plainManifestUrl origin kind channel releaseId) := by
  rw [publicManifestUrl, encodeURIComponent_id h]
  rfl

theorem publicManifestSignatureUrl_id {origin : JsString} {kind : ReleaseKind} {channel : Channel}
    {releaseId : JsString} (h : ∀ c ∈ ascii releaseId, isIdChar c = true) :
    publicManifestSignatureUrl origin kind channel releaseId =
      some (plainManifestUrl origin kind channel releaseId ++ units ".sig") := by
  rw [publicManifestSignatureUrl, publicManifestUrl_id h]
  rfl

/-! ## Admitted release ids -/

theorem isIdWord_isIdChar {n : Nat} {cs : List Char} (h : isIdWord n cs = true) : ∀ c ∈ cs, isIdChar c = true := by
  rcases cs with _ | ⟨c, cs⟩
  · simp
  · simp only [isIdWord, Bool.and_eq_true, List.all_eq_true] at h
    refine List.forall_mem_cons.mpr ⟨?_, h.1.2⟩
    simp only [isIdChar, h.1.1, Bool.true_or]

/-- What the service makes sure of a release id. -/
theorem assertReleaseId_ok {kind : ReleaseKind} {value releaseId : JsString}
    (h : assertReleaseId kind value = .ok releaseId) :
    isIdWord 127 (ascii releaseId) = true ∧
      (kind = .system → ∃ v, parseSystemVersion releaseId = some v) ∧
      (kind = .opr → isOprId (ascii releaseId) = true) := by
  obtain ⟨id, -, h⟩ := Fallible.bind_ok.mp h
  obtain ⟨hid, h⟩ := Fallible.guard_ok.mp h
  obtain ⟨hsystem, h⟩ := Fallible.guard_ok.mp h
  obtain ⟨hopr, h⟩ := Fallible.guard_ok.mp h
  obtain rfl := Except.ok.inj h
  refine ⟨by simpa using hid, fun hk => ?_, fun hk => by simpa [hk] using hopr⟩
  exact Option.ne_none_iff_exists'.mp fun hn => hsystem ⟨hk, hn⟩

end Omapkg.Server
