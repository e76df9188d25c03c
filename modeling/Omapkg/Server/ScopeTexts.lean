import Omapkg.Server.CanonicalText
import Omapkg.Server.CohortMembers
/-!
# The texts of a cohort revision

A revision of a scope upload is kept as canonical JSON: the members of each chunk
and a manifest that names the chunks. What `JSON.parse` reads of these texts is
what was written.
-/

namespace Omapkg.Server.Scope

open Utf Json

/-! ## What is read of a stored text -/

def jsField (name : String) : Json JsString → Option (Json JsString)
  | .obj ms => (ms.find? (·.1 = units name)).map Prod.snd
  | _ => none

def jsElements : Option (Json JsString) → List (Json JsString)
  | some (.arr xs) => xs
  | _ => []

def jsString : Option (Json JsString) → String
  | some (.str s) => toText s
  | _ => ""

def jsNumeral : Option (Json JsString) → Nat
  | some (.num n) => Nat.ofDigitChars 10 n.text 0
  | _ => 0

/-- A member of a manifest's `memberChunks`. -/
def readMemberChunk (v : Json JsString) : MemberChunk where
  index := jsNumeral (jsField "index" v)
  start := jsNumeral (jsField "start" v)
  count := jsNumeral (jsField "count" v)
  first := jsString (jsField "first" v)
  last := jsString (jsField "last" v)
  sha256 := jsString (jsField "sha256" v)

def readManifest (v : Json JsString) : CohortManifest (Json JsString) :=
  if jsNumeral (jsField "schemaVersion" v) = 1 then .inline (jsElements (jsField "members" v))
  else .chunked (jsNumeral (jsField "memberCount" v)) ((jsElements (jsField "memberChunks" v)).map readMemberChunk)

/-- Stored texts as `JSON.parse` reads them. -/
def jsonReaders (jsNumber : Numeral → Numeral) (sha256 : List Char → String) : Readers (Json JsString) where
  sha256 := sha256
  manifest := fun text => readManifest ((jsonParse jsNumber text).getD .null)
  members := fun text => jsElements (jsonParse jsNumber text)
  pkgbase := fun v => jsString (jsField "pkgbase" v)

def MemberChunk.members (chunk : MemberChunk) : List (String × Json JsString) := [
  ("index", jsNat chunk.index), ("start", jsNat chunk.start), ("count", jsNat chunk.count), ("first", jsText chunk.first),
  ("last", jsText chunk.last), ("sha256", jsText chunk.sha256)]

theorem jsField_canonical {ms : List (String × Json JsString)} (hplain : PlainNames ms) {name : String} {v : Json JsString}
    (hv : (name, v) ∈ ms) : jsField name (canonicalValue (jsObject ms)) = some (canonicalValue v) := by
  have hkeys : (ms.map fun m => (units m.1, m.2)).map Prod.fst = (ms.map Prod.fst).map units := by
    rw [List.map_map, List.map_map]
    rfl
  have hobj : PlainKeys ((ms.map fun m => (units m.1, m.2)).map Prod.fst) := by rwa [hkeys]
  rw [jsObject, canonicalValue_obj hobj, jsField]
  have hperm := sortKeys_perm (canonicalMembers (ms.map fun m => (units m.1, m.2)))
  have hnodup : ((sortKeys (canonicalMembers (ms.map fun m => (units m.1, m.2)))).map Prod.fst).Nodup := by
    rw [(hperm.map Prod.fst).nodup_iff, canonicalMembers_eq, List.map_map]
    exact hobj.1
  have hmem : (units name, canonicalValue v) ∈ sortKeys (canonicalMembers (ms.map fun m => (units m.1, m.2))) := by
    rw [hperm.mem_iff, canonicalMembers_eq, List.mem_map]
    exact ⟨(units name, v), List.mem_map.mpr ⟨(name, v), hv, rfl⟩, rfl⟩
  cases hfound : (sortKeys (canonicalMembers (ms.map fun m => (units m.1, m.2)))).find? (·.1 = units name) with
  | none =>
    have hno := List.find?_eq_none.mp hfound _ hmem
    simp at hno
  | some m =>
    have hname : m.1 = units name := by simpa using List.find?_some hfound
    have heq := List.inj_on_of_nodup_map hnodup (List.mem_of_find?_eq_some hfound) hmem hname
    rw [heq]
    rfl

theorem MemberChunk.plain (chunk : MemberChunk) : PlainNames chunk.members :=
  plainNames_of (by simp [MemberChunk.members]) (by simp [MemberChunk.members]; decide)

theorem jsNumeral_jsNat (n : Nat) : jsNumeral (some (canonicalValue (jsNat n))) = n := Nat.ofDigitChars_ten_toDigits

theorem jsString_jsText (s : String) : jsString (some (canonicalValue (jsText s))) = s := toText_units s

theorem readMemberChunk_canonical (chunk : MemberChunk) : readMemberChunk (canonicalValue (jsObject chunk.members)) = chunk := by
  have hfield {name : String} {v : Json JsString} (hv : (name, v) ∈ chunk.members) := jsField_canonical chunk.plain hv
  rw [readMemberChunk, hfield (v := jsNat chunk.index) (by simp [MemberChunk.members]),
    hfield (v := jsNat chunk.start) (by simp [MemberChunk.members]), hfield (v := jsNat chunk.count) (by simp [MemberChunk.members]),
    hfield (v := jsText chunk.first) (by simp [MemberChunk.members]), hfield (v := jsText chunk.last) (by simp [MemberChunk.members]),
    hfield (v := jsText chunk.sha256) (by simp [MemberChunk.members])]
  simp only [jsNumeral_jsNat, jsString_jsText]

/-- The metadata of a cohort's manifest. -/
structure CohortMetadata where
  title : JsString
  lane : Lane
  systemVersion : Option String
  parentSnapshot : Option String
  compatibleSystems : List String

/-- A `CohortChunkedManifest`. -/
def manifestMembers (metadata : CohortMetadata) (memberCount : Nat) (chunks : List MemberChunk) (areas : List String)
    (targets : List Architecture) : List (String × Json JsString) := [
  ("title", .str metadata.title), ("lane", jsText metadata.lane.text), ("systemVersion", orNull jsText metadata.systemVersion),
  ("parentSnapshot", orNull jsText metadata.parentSnapshot),
  ("compatibleSystems", .arr (metadata.compatibleSystems.map jsText)), ("schemaVersion", jsNat 2), ("memberCount", jsNat memberCount),
  ("memberChunks", .arr (chunks.map fun chunk => jsObject chunk.members)), ("ownerAreas", .arr (areas.map jsText)),
  ("architectures", .arr (targets.map fun target => jsText target.text))]

def manifestText (metadata : CohortMetadata) (memberCount : Nat) (chunks : List MemberChunk) (areas : List String)
    (targets : List Architecture) : List Char := canonicalJson (jsObject (manifestMembers metadata memberCount chunks areas targets))

section
variable {jsNumber : Numeral → Numeral}

theorem areValues_iff (xs : List (Json JsString)) : AreValues jsNumber xs ↔ ∀ x ∈ xs, IsValue jsNumber x := by
  induction xs with
  | nil => simp [AreValues]
  | cons x xs ih => simp [AreValues, ih]

theorem isValue_jsObject {ms : List (String × Json JsString)} (hplain : PlainNames ms) (h : ∀ m ∈ ms, IsValue jsNumber m.2) :
    IsValue jsNumber (jsObject ms) := by
  have hkeys : (ms.map fun m => (units m.1, m.2)).map Prod.fst = (ms.map Prod.fst).map units := by
    rw [List.map_map, List.map_map]
    rfl
  refine ⟨hkeys ▸ hplain.1, (haveValues_iff _).mpr fun m hm => ?_⟩
  obtain ⟨m', hm', rfl⟩ := List.mem_map.mp hm
  exact h m' hm'

/-- Integers are written as they are. -/
def WritesSafe (jsNumber : Numeral → Numeral) : Prop := ∀ n ≤ maxSafeInteger, jsNumber (.ofNat n) = .ofNat n

variable {sha256 : List Char → String}

theorem jsonReaders_members (text : List Char) :
    (jsonReaders jsNumber sha256).members text = jsElements (jsonParse jsNumber text) := rfl

theorem jsonReaders_manifest (text : List Char) :
    (jsonReaders jsNumber sha256).manifest text = readManifest ((jsonParse jsNumber text).getD .null) := rfl

theorem jsonReaders_pkgbase (v : Json JsString) : (jsonReaders jsNumber sha256).pkgbase v = jsString (jsField "pkgbase" v) := rfl

theorem isValue_jsText (s : String) : IsValue jsNumber (jsText s) := trivial

theorem isValue_str (s : JsString) : IsValue jsNumber (.str s) := trivial

theorem isValue_jsNat (hnumber : WritesSafe jsNumber) {n : Nat} (hn : n ≤ maxSafeInteger) : IsValue jsNumber (jsNat n) := hnumber n hn

theorem isValue_orNull {α : Type} {f : α → Json JsString} (hf : ∀ a, IsValue jsNumber (f a)) : ∀ o, IsValue jsNumber (orNull f o)
  | none => trivial
  | some a => hf a

theorem isValue_arr {α : Type} {f : α → Json JsString} {xs : List α} (hf : ∀ x ∈ xs, IsValue jsNumber (f x)) :
    IsValue jsNumber (.arr (xs.map f)) := by
  refine (areValues_iff _).mpr fun v hv => ?_
  obtain ⟨x, hx, rfl⟩ := List.mem_map.mp hv
  exact hf x hx

theorem MemberChunk.isValue (hnumber : WritesSafe jsNumber) {chunk : MemberChunk} (hindex : chunk.index ≤ maxSafeInteger)
    (hstart : chunk.start ≤ maxSafeInteger) (hcount : chunk.count ≤ maxSafeInteger) : IsValue jsNumber (jsObject chunk.members) := by
  refine isValue_jsObject chunk.plain ?_
  simp only [MemberChunk.members, List.forall_mem_cons]
  exact ⟨isValue_jsNat hnumber hindex, isValue_jsNat hnumber hstart, isValue_jsNat hnumber hcount, isValue_jsText _, isValue_jsText _,
    isValue_jsText _, fun _ h => absurd h List.not_mem_nil⟩

section
variable (metadata : CohortMetadata) {memberCount : Nat} {chunks : List MemberChunk} (areas : List String) (targets : List Architecture)

theorem manifestMembers_plain : PlainNames (manifestMembers metadata memberCount chunks areas targets) :=
  plainNames_of (by simp [manifestMembers]) (by simp only [manifestMembers, List.map_cons, List.map_nil]; decide)

theorem manifestMembers_isValue (hnumber : WritesSafe jsNumber) (hcount : memberCount ≤ maxSafeInteger)
    (hchunks : ∀ chunk ∈ chunks,
      chunk.index ≤ maxSafeInteger ∧ chunk.start ≤ maxSafeInteger ∧ chunk.count ≤ maxSafeInteger) :
    IsValue jsNumber (jsObject (manifestMembers metadata memberCount chunks areas targets)) := by
  refine isValue_jsObject (manifestMembers_plain metadata areas targets) ?_
  have hlist : IsValue jsNumber (.arr (chunks.map fun chunk => jsObject chunk.members)) := isValue_arr fun chunk hchunk =>
    chunk.isValue hnumber (hchunks chunk hchunk).1 (hchunks chunk hchunk).2.1 (hchunks chunk hchunk).2.2
  simp only [manifestMembers, List.forall_mem_cons]
  exact ⟨isValue_str _, isValue_jsText _, isValue_orNull isValue_jsText _, isValue_orNull isValue_jsText _,
    isValue_arr fun _ _ => isValue_jsText _, isValue_jsNat hnumber (by decide), isValue_jsNat hnumber hcount, hlist,
    isValue_arr fun _ _ => isValue_jsText _, isValue_arr fun _ _ => isValue_jsText _, fun _ h => absurd h List.not_mem_nil⟩

theorem manifestText_read (hnumber : WritesSafe jsNumber) (hcount : memberCount ≤ maxSafeInteger)
    (hchunks : ∀ chunk ∈ chunks,
      chunk.index ≤ maxSafeInteger ∧ chunk.start ≤ maxSafeInteger ∧ chunk.count ≤ maxSafeInteger) :
    (jsonReaders jsNumber sha256).manifest (manifestText metadata memberCount chunks areas targets) = .chunked memberCount chunks := by
  have hfield {name : String} {v : Json JsString} (hv : (name, v) ∈ manifestMembers metadata memberCount chunks areas targets) :=
    jsField_canonical (manifestMembers_plain metadata areas targets) hv
  have hversion := hfield (show ("schemaVersion", jsNat 2) ∈ _ by simp only [manifestMembers, List.mem_cons, eq_self, true_or, or_true])
  have hmemberCount := hfield (show ("memberCount", jsNat memberCount) ∈ _ by
    simp only [manifestMembers, List.mem_cons, eq_self, true_or, or_true])
  have hmemberChunks := hfield (show ("memberChunks", .arr (chunks.map fun chunk => jsObject chunk.members)) ∈ _ by
    simp only [manifestMembers, List.mem_cons, eq_self, true_or, or_true])
  have hparse := jsonParse_canonicalJson (manifestMembers_isValue metadata areas targets hnumber hcount hchunks)
  rw [jsonReaders_manifest, manifestText, hparse, Option.getD_some, readManifest, hversion, hmemberCount, hmemberChunks,
    jsNumeral_jsNat, if_neg (by decide),
    jsNumeral_jsNat, canonicalValue, canonicalElems_eq, jsElements, List.map_map, List.map_map]
  exact congrArg _ ((List.map_congr_left fun chunk _ => readMemberChunk_canonical chunk).trans (List.map_id _))

end

/-- A member as it is read back. -/
def storedValue (m : CohortMember) : Json JsString := canonicalValue m.json

/-- A member whose policy is a value, and whose revision is a safe integer. -/
def SoundMember (jsNumber : Numeral → Numeral) (m : CohortMember) : Prop :=
  m.catalogRevision ≤ maxSafeInteger ∧ IsValue jsNumber m.policy.document

theorem MemberRecipe.isValue (r : MemberRecipe) : IsValue jsNumber r.json := by
  refine isValue_jsObject (plainNames_of (by simp) (by simp only [List.map_cons, List.map_nil]; decide)) ?_
  simp only [List.forall_mem_cons]
  exact ⟨isValue_jsText _, isValue_jsText _, isValue_jsText _, isValue_jsText _, fun _ h => absurd h List.not_mem_nil⟩

theorem CohortMember.plain (m : CohortMember) : PlainNames [
    ("pkgbase", jsText m.pkgbase), ("catalogRevision", jsNat m.catalogRevision), ("catalogSha256", jsText m.catalogSha256),
    ("policy", m.policy.document), ("recipe", orNull MemberRecipe.json m.recipe), ("cause", jsText m.cause.text),
    ("reason", .str m.reason)] := plainNames_of (by simp) (by simp only [List.map_cons, List.map_nil]; decide)

theorem CohortMember.isValue (hnumber : WritesSafe jsNumber) {m : CohortMember} (h : SoundMember jsNumber m) :
    IsValue jsNumber m.json := by
  refine isValue_jsObject m.plain ?_
  simp only [List.forall_mem_cons]
  exact ⟨isValue_jsText _, isValue_jsNat hnumber h.1, isValue_jsText _, h.2, isValue_orNull MemberRecipe.isValue _, isValue_jsText _,
    isValue_str _, fun _ h => absurd h List.not_mem_nil⟩

theorem membersJson_read (hnumber : WritesSafe jsNumber) {members : List CohortMember} (h : ∀ m ∈ members, SoundMember jsNumber m) :
    (jsonReaders jsNumber sha256).members (membersJson members) = members.map storedValue := by
  have hvalue : IsValue jsNumber (.arr (members.map CohortMember.json)) := isValue_arr fun m hm => CohortMember.isValue hnumber (h m hm)
  have hparse := jsonParse_canonicalJson hvalue
  rw [jsonReaders_members, membersJson, hparse, canonicalValue, canonicalElems_eq, jsElements, List.map_map]
  rfl

theorem storedValue_pkgbase (m : CohortMember) : (jsonReaders jsNumber sha256).pkgbase (storedValue m) = m.pkgbase := by
  rw [jsonReaders_pkgbase, storedValue, CohortMember.json, jsField_canonical m.plain List.mem_cons_self, jsString_jsText]

end

end Omapkg.Server.Scope
