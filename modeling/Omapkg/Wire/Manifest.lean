import Omapkg.Client.Transaction
import Omapkg.Server.Resolve
import Omapkg.Wire.Canonical
/-!
# Manifests at the client

A release manifest after its bytes are read by the client: every field of the
server's record stands under its name, and the client's canonical bytes are
the served ones exactly when the manifest's strings are clean.
-/

namespace Omapkg.Wire

open Json Utf Omapkg.Server Omapkg.Client

/-! ## Objects -/

/-- The client's object of an object literal. -/
def receivedFields (ms : List (String × Json JsString)) : Object :=
  receivedObject (ms.map fun m => (units m.1, m.2))

theorem plainKeys_units {ms : List (String × Json JsString)} (h : PlainNames ms) :
    PlainKeys ((ms.map fun m => (units m.1, m.2)).map Prod.fst) := by
  have hkeys : (ms.map fun m => (units m.1, m.2)).map Prod.fst = (ms.map Prod.fst).map units := by
    rw [List.map_map, List.map_map]; rfl
  rwa [hkeys]

theorem received_jsObject {ms : List (String × Json JsString)} (h : PlainNames ms) :
    received (jsObject ms) = .obj (receivedFields ms) :=
  received_obj (plainKeys_units h)

theorem lookup_receivedFields {ms : List (String × Json JsString)} (h : PlainNames ms) (key : String) :
    (receivedFields ms).lookup key = (ms.lookup key).map received := by
  rw [receivedFields, lookup_receivedObject (plainKeys_units h)]
  congr 1
  clear h
  induction ms with
  | nil => rfl
  | cons m ms ih =>
    obtain ⟨k, v⟩ := m
    have hk : (units key == units k) = (key == k) := by
      rw [Bool.eq_iff_iff, beq_iff_eq, beq_iff_eq]
      exact ⟨units_injective, congrArg units⟩
    simp only [List.map_cons, List.lookup_cons, hk, ih]

/-- The object the client decodes from a served manifest. -/
def receivedManifest (m : ReleaseManifest) : Object := receivedFields m.members

/-! ## Canonical bytes -/

/-- The client decodes every served manifest. -/
theorem canonicalDocument_manifest (m : ReleaseManifest) :
    canonicalDocument (releaseManifestBytes m) =
      .ok (canonicalMarshal (received m.toJson), receivedManifest m) := by
  have hd : m.toJson.depth ≤ maxNestingDepth := m.shaped.2.trans (by decide)
  exact canonicalDocument_canonicalJson m.shaped.1 hd

/-- The client's canonical bytes of a served manifest are the served bytes
exactly when no string of the manifest holds a line separator, a paragraph
separator or a lone surrogate. -/
theorem canonicalDocument_eq_iff (m : ReleaseManifest) :
    (∃ object, canonicalDocument (releaseManifestBytes m) = .ok (releaseManifestBytes m, object)) ↔
      m.toJson.AllStr Clean := by
  rw [canonicalDocument_manifest, ← canonical_bytes_iff m.shaped.1]
  constructor
  · rintro ⟨object, h⟩
    exact (Prod.mk.inj (Except.ok.inj h)).1
  · intro h
    exact ⟨receivedManifest m, by rw [h]; rfl⟩

/-! ### A release that cannot be read back -/

theorem allStr_member {P : JsString → Prop} {ms : List (String × Json JsString)} {k : String}
    {v : Json JsString} (h : (jsObject ms).AllStr P) (hm : (k, v) ∈ ms) : v.AllStr P :=
  ((allMembers_iff P _).mp h (units k, v) (List.mem_map_of_mem hm)).2

/-- An admitted system release whose recovery reason holds a line separator. -/
def separatorManifest : ReleaseManifest where
  kind := .system
  lane := .system
  channel := .stable
  identity := ⟨some (units "4.0.3"), none⟩
  releaseId := units "4.0.3"
  parent := ⟨none, none⟩
  createdAt := 1000
  expiresAt := 2000
  sequence := 1
  architectures := [.aarch64, .x86_64]
  sourceRefs := []
  repositories := [Architecture.aarch64, .x86_64].map fun a =>
    { name := .core
      architecture := a
      snapshotDigest := List.replicate 64 0x61
      dbUrl := units "https://omapkg.example/core.db"
      signatureUrl := units "https://omapkg.example/core.db.sig"
      packageBaseUrl := units "https://omapkg.example/" }
  packageChunks := [
    { url := publicReleaseObjectUrl (units "https://omapkg.example") "chunks" (List.replicate 64 0x62)
      sha256 := List.replicate 64 0x62, size := 10, index := 0, count := 1, packageCount := 1 }]
  packageCount := 1
  compatibility := ⟨none, [], some (List.replicate 64 0x63)⟩
  systemManifest := none
  oprManifest := none
  changelog :=
    { url := publicReleaseObjectUrl (units "https://omapkg.example") "changelogs" (List.replicate 64 0x64)
      sha256 := List.replicate 64 0x64, size := 10, approvedBy := units "github:1"
      cohortDigests := [⟨units "cohort", 1, List.replicate 64 0x65⟩] }
  approvals := ⟨[units "github:1"], []⟩
  recovery := ⟨none, none, true, some (units "after\u2028the outage"), [units "one"]⟩

theorem separatorManifest_admitted : Admitted (units "https://omapkg.example") separatorManifest where
  kind := by decide
  channel := by decide
  releaseId := by decide +kernel
  identity := by decide
  parent := by decide
  times := by decide
  sequence := by decide
  architectures := by decide
  sourceRefs := by decide
  repositories := by decide
  repositoryRefs := by decide +kernel
  packageChunks := by decide
  packageChunkRefs := by decide +kernel
  packageCount := by decide
  compatibility := by decide +kernel
  references := by decide
  changelog := by decide +kernel
  cohortDigests := by decide +kernel
  recovery := ⟨rfl, fun _ => ⟨_, rfl, by decide +kernel⟩, by decide +kernel⟩

/-- The service admits a text with a line separator, and the client's bytes of
the manifest are not the served ones. -/
theorem separatorManifest_not_canonical :
    Admitted (units "https://omapkg.example") separatorManifest ∧
      ¬∃ object, canonicalDocument (releaseManifestBytes separatorManifest) =
        .ok (releaseManifestBytes separatorManifest, object) := by
  refine ⟨separatorManifest_admitted, ?_⟩
  rintro ⟨object, h⟩
  rw [canonicalDocument_manifest] at h
  have hclean := (canonical_bytes_iff separatorManifest.shaped.1).mp (Prod.mk.inj (Except.ok.inj h)).1
  have hrecovery : separatorManifest.recovery.toJson.AllStr Clean :=
    allStr_member hclean (k := "recovery") (by simp [ReleaseManifest.members])
  have hreason : (Json.str (units "after\u2028the outage")).AllStr Clean :=
    allStr_member hrecovery (k := "reason") (by simp [RecoveryRef.members, separatorManifest, orNull])
  exact absurd hreason (by rw [AllStr]; decide)

end Omapkg.Wire
