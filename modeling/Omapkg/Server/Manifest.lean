import Mathlib.Algebra.GroupWithZero.Nat
import Omapkg.Lib.Hash
import Omapkg.Server.CanonicalJson
/-!
# Release manifests

The manifest of `src/src/lib/distribution-release.ts` and its JSON document.
`toJson` lists members as the object literals of the server do;
`canonicalJson` sorts them.
-/

namespace Omapkg.Server

open Utf Json

/-! ## Names -/

inductive ReleaseKind where
  | system | opr | resolvedTransaction
  deriving DecidableEq, Repr

inductive Lane where
  | system | opr | transaction
  deriving DecidableEq, Repr

inductive Channel where
  | edge | rc | stable | quarantine
  deriving DecidableEq, Repr

inductive Architecture where
  | x86_64 | aarch64
  deriving DecidableEq, Repr

inductive RepositoryName where
  | core | extra | multilib | omarchy | omapkg
  deriving DecidableEq, Repr

def ReleaseKind.text : ReleaseKind → String
  | .system => "system"
  | .opr => "opr"
  | .resolvedTransaction => "resolved-transaction"

def Lane.text : Lane → String
  | .system => "system"
  | .opr => "opr"
  | .transaction => "transaction"

def Channel.text : Channel → String
  | .edge => "edge"
  | .rc => "rc"
  | .stable => "stable"
  | .quarantine => "quarantine"

def Architecture.text : Architecture → String
  | .x86_64 => "x86_64"
  | .aarch64 => "aarch64"

def RepositoryName.text : RepositoryName → String
  | .core => "core"
  | .extra => "extra"
  | .multilib => "multilib"
  | .omarchy => "omarchy"
  | .omapkg => "omapkg"

/-- The channels `validChannel` admits for a kind; a transaction moves in the
channels of the system. -/
def ReleaseKind.channels : ReleaseKind → List Channel
  | .system => [.edge, .rc, .stable]
  | .opr => [.quarantine, .stable]
  | .resolvedTransaction => [.edge, .rc, .stable]

def ReleaseKind.lane : ReleaseKind → Lane
  | .system => .system
  | .opr => .opr
  | .resolvedTransaction => .transaction

/-! ## The manifest -/

structure ManifestRef where
  url : JsString
  digest : JsString
  signatureUrl : JsString
  channel : Channel
  sequence : Nat
  version : Option JsString
  generation : Option JsString
  deriving DecidableEq

structure RepositoryRef where
  name : RepositoryName
  architecture : Architecture
  snapshotDigest : JsString
  dbUrl : JsString
  signatureUrl : JsString
  packageBaseUrl : JsString
  deriving DecidableEq

structure PackageChunkRef where
  url : JsString
  sha256 : JsString
  size : Nat
  index : Nat
  count : Nat
  packageCount : Nat
  deriving DecidableEq

structure SourceRef where
  name : JsString
  ref : JsString
  digest : JsString
  deriving DecidableEq

structure CohortDigest where
  cohortId : JsString
  revision : Nat
  digest : JsString
  deriving DecidableEq

structure ChangelogRef where
  url : JsString
  sha256 : JsString
  size : Nat
  approvedBy : JsString
  cohortDigests : List CohortDigest
  deriving DecidableEq

structure RecoveryRef where
  fromDigest : Option JsString
  target : Option ManifestRef
  authorized : Bool
  reason : Option JsString
  constraints : List JsString
  deriving DecidableEq

structure Identity where
  version : Option JsString
  generation : Option JsString
  deriving DecidableEq

/-- The pointer value a manifest succeeds. -/
structure Parent where
  digest : Option JsString
  sequence : Option Nat
  deriving DecidableEq

structure Compatibility where
  systemManifestDigest : Option JsString
  systemSnapshotDigests : List JsString
  oprManifestDigest : Option JsString
  deriving DecidableEq

structure Approvals where
  releaseTeam : List JsString
  baseOwners : List JsString
  deriving DecidableEq

structure ReleaseManifest where
  kind : ReleaseKind
  lane : Lane
  channel : Channel
  identity : Identity
  releaseId : JsString
  parent : Parent
  createdAt : Nat
  expiresAt : Nat
  sequence : Nat
  architectures : List Architecture
  sourceRefs : List SourceRef
  repositories : List RepositoryRef
  packageChunks : List PackageChunkRef
  packageCount : Nat
  compatibility : Compatibility
  systemManifest : Option ManifestRef
  oprManifest : Option ManifestRef
  changelog : ChangelogRef
  approvals : Approvals
  recovery : RecoveryRef
  deriving DecidableEq

/-! ## The document -/

/-- An object literal. -/
def jsObject (ms : List (String × Json JsString)) : Json JsString := .obj (ms.map fun m => (units m.1, m.2))

def jsText (s : String) : Json JsString := .str (units s)

def jsNat (n : Nat) : Json JsString := .num (.ofNat n)

def orNull {α : Type} (f : α → Json JsString) : Option α → Json JsString
  | none => .null
  | some a => f a

def ManifestRef.members (r : ManifestRef) : List (String × Json JsString) := [
  ("url", .str r.url), ("digest", .str r.digest), ("signatureUrl", .str r.signatureUrl),
  ("channel", jsText r.channel.text), ("sequence", jsNat r.sequence), ("version", orNull .str r.version),
  ("generation", orNull .str r.generation)]

def ManifestRef.toJson (r : ManifestRef) : Json JsString := jsObject r.members

def RepositoryRef.members (r : RepositoryRef) : List (String × Json JsString) := [
  ("name", jsText r.name.text), ("architecture", jsText r.architecture.text),
  ("snapshotDigest", .str r.snapshotDigest), ("dbUrl", .str r.dbUrl), ("signatureUrl", .str r.signatureUrl),
  ("packageBaseUrl", .str r.packageBaseUrl)]

def RepositoryRef.toJson (r : RepositoryRef) : Json JsString := jsObject r.members

def PackageChunkRef.members (c : PackageChunkRef) : List (String × Json JsString) := [
  ("url", .str c.url), ("sha256", .str c.sha256), ("size", jsNat c.size), ("index", jsNat c.index),
  ("count", jsNat c.count), ("packageCount", jsNat c.packageCount)]

def PackageChunkRef.toJson (c : PackageChunkRef) : Json JsString := jsObject c.members

def SourceRef.members (r : SourceRef) : List (String × Json JsString) := [
  ("name", .str r.name), ("ref", .str r.ref), ("digest", .str r.digest)]

def SourceRef.toJson (r : SourceRef) : Json JsString := jsObject r.members

def CohortDigest.members (c : CohortDigest) : List (String × Json JsString) := [
  ("cohortId", .str c.cohortId), ("revision", jsNat c.revision), ("digest", .str c.digest)]

def CohortDigest.toJson (c : CohortDigest) : Json JsString := jsObject c.members

def ChangelogRef.members (c : ChangelogRef) : List (String × Json JsString) := [
  ("url", .str c.url), ("sha256", .str c.sha256), ("size", jsNat c.size), ("approvedBy", .str c.approvedBy),
  ("cohortDigests", .arr (c.cohortDigests.map CohortDigest.toJson))]

def ChangelogRef.toJson (c : ChangelogRef) : Json JsString := jsObject c.members

def RecoveryRef.members (r : RecoveryRef) : List (String × Json JsString) := [
  ("fromDigest", orNull .str r.fromDigest), ("target", orNull ManifestRef.toJson r.target),
  ("authorized", .bool r.authorized), ("reason", orNull .str r.reason),
  ("constraints", .arr (r.constraints.map .str))]

def RecoveryRef.toJson (r : RecoveryRef) : Json JsString := jsObject r.members

def Identity.members (i : Identity) : List (String × Json JsString) := [
  ("version", orNull .str i.version), ("generation", orNull .str i.generation)]

def Identity.toJson (i : Identity) : Json JsString := jsObject i.members

def Parent.members (p : Parent) : List (String × Json JsString) := [
  ("digest", orNull .str p.digest), ("sequence", orNull jsNat p.sequence)]

def Parent.toJson (p : Parent) : Json JsString := jsObject p.members

def Compatibility.members (c : Compatibility) : List (String × Json JsString) := [
  ("systemManifestDigest", orNull .str c.systemManifestDigest),
  ("systemSnapshotDigests", .arr (c.systemSnapshotDigests.map .str)),
  ("oprManifestDigest", orNull .str c.oprManifestDigest)]

def Compatibility.toJson (c : Compatibility) : Json JsString := jsObject c.members

def Approvals.members (a : Approvals) : List (String × Json JsString) := [
  ("releaseTeam", .arr (a.releaseTeam.map .str)), ("baseOwners", .arr (a.baseOwners.map .str))]

def Approvals.toJson (a : Approvals) : Json JsString := jsObject a.members

/-- `DISTRIBUTION_RELEASE_POLICY`. -/
def distributionReleasePolicy : String := "distribution-release-v1"

def policyMembers : List (String × Json JsString) := [
  ("schemaVersion", jsNat 1), ("version", jsText distributionReleasePolicy)]

def policyJson : Json JsString := jsObject policyMembers

def ReleaseManifest.members (m : ReleaseManifest) : List (String × Json JsString) := [
  ("schemaVersion", jsNat 1), ("kind", jsText m.kind.text), ("lane", jsText m.lane.text),
  ("channel", jsText m.channel.text), ("identity", m.identity.toJson), ("releaseId", .str m.releaseId),
  ("parent", m.parent.toJson), ("createdAt", jsNat m.createdAt), ("expiresAt", jsNat m.expiresAt),
  ("sequence", jsNat m.sequence), ("architectures", .arr (m.architectures.map fun a => jsText a.text)),
  ("sourceRefs", .arr (m.sourceRefs.map SourceRef.toJson)),
  ("repositories", .arr (m.repositories.map RepositoryRef.toJson)),
  ("packageChunks", .arr (m.packageChunks.map PackageChunkRef.toJson)), ("packageCount", jsNat m.packageCount),
  ("compatibility", m.compatibility.toJson), ("systemManifest", orNull ManifestRef.toJson m.systemManifest),
  ("oprManifest", orNull ManifestRef.toJson m.oprManifest), ("changelog", m.changelog.toJson),
  ("approvals", m.approvals.toJson), ("recovery", m.recovery.toJson), ("policy", policyJson)]

def ReleaseManifest.toJson (m : ReleaseManifest) : Json JsString := jsObject m.members

def releaseManifestBytes (m : ReleaseManifest) : Bytes := encode (canonicalJson m.toJson)

def releaseManifestDigest (sha256 : Bytes → Hash.Digest) (m : ReleaseManifest) : JsString :=
  units (sha256 (releaseManifestBytes m)).hex

/-! ## Shape -/

/-- A value with plain names that nests no deeper than `d`. -/
def Shaped (d : Nat) (v : Json JsString) : Prop := Plain v ∧ v.depth ≤ d

@[simp] theorem shaped_str (d : Nat) (s : JsString) : Shaped d (.str s) := ⟨trivial, Nat.zero_le d⟩

@[simp] theorem shaped_jsText (d : Nat) (s : String) : Shaped d (jsText s) := shaped_str d _

@[simp] theorem shaped_jsNat (d : Nat) (n : Nat) : Shaped d (jsNat n) := ⟨trivial, Nat.zero_le d⟩

@[simp] theorem shaped_bool (d : Nat) (b : Bool) : Shaped d (.bool b) := ⟨trivial, Nat.zero_le d⟩

theorem shaped_orNull {α : Type} {d : Nat} {f : α → Json JsString} (h : ∀ a, Shaped d (f a)) :
    ∀ o, Shaped d (orNull f o)
  | none => ⟨trivial, Nat.zero_le d⟩
  | some a => h a

theorem shaped_arr {α : Type} {d : Nat} {f : α → Json JsString} (h : ∀ a, Shaped d (f a)) (xs : List α) :
    Shaped (d + 1) (.arr (xs.map f)) := by
  constructor
  · rw [Plain, plainElems_iff]
    intro x hx
    obtain ⟨a, -, rfl⟩ := List.mem_map.mp hx
    exact (h a).1
  · rw [depth]
    refine Nat.succ_le_succ ((depthElems_le_iff _ _).mpr fun x hx => ?_)
    obtain ⟨a, -, rfl⟩ := List.mem_map.mp hx
    exact (h a).2

/-- Object literals with plain names. -/
def PlainNames (ms : List (String × Json JsString)) : Prop := PlainKeys ((ms.map Prod.fst).map units)

theorem shaped_jsObject {d : Nat} {ms : List (String × Json JsString)} (hk : PlainNames ms)
    (hv : ∀ m ∈ ms, Shaped d m.2) : Shaped (d + 1) (jsObject ms) := by
  have hkeys : (ms.map fun m => (units m.1, m.2)).map Prod.fst = (ms.map Prod.fst).map units := by
    rw [List.map_map, List.map_map]; rfl
  refine ⟨⟨by rwa [hkeys], ?_⟩, ?_⟩
  · rw [plainMembers_iff]
    intro x hx
    obtain ⟨m, hm, rfl⟩ := List.mem_map.mp hx
    exact (hv m hm).1
  · rw [jsObject, depth]
    refine Nat.succ_le_succ ((depthMembers_le_iff _ _).mpr fun x hx => ?_)
    obtain ⟨m, hm, rfl⟩ := List.mem_map.mp hx
    exact (hv m hm).2

/-- A name in ASCII that starts with no digit. -/
def isPlainName (name : String) : Bool :=
  (name.toList.head?.map Char.isDigit) = some false && name.toList.all fun c => c.toNat < 128

theorem plainKey_units {name : String} (h : isPlainName name = true) : PlainKey (units name) := by
  simp only [isPlainName, Bool.and_eq_true, decide_eq_true_eq, List.all_eq_true] at h
  obtain ⟨hhead, hascii⟩ := h
  refine ⟨?_, ?_⟩
  · refine if_neg fun hn => ?_
    have hname : name = Nat.repr _ := units_injective hn.1
    rw [hname, Nat.toList_repr] at hhead
    obtain ⟨c, hc, hd⟩ := Option.map_eq_some_iff.mp hhead
    have hdigit := toDigits_isDigit _ c (List.mem_of_head? hc)
    rw [hd] at hdigit
    exact Bool.false_ne_true hdigit
  · intro u hu
    obtain ⟨c, hc, hu⟩ := List.mem_flatMap.mp hu
    have hlt := hascii c hc
    rw [encodeUnit, if_pos (by omega)] at hu
    obtain rfl := List.mem_singleton.mp hu
    rw [UInt16.toNat_ofNat_of_lt' (by rw [UInt16.size]; omega)]
    exact hlt

theorem plainNames_of {ms : List (String × Json JsString)} (hn : (ms.map Prod.fst).Nodup)
    (h : (ms.map Prod.fst).all isPlainName = true) : PlainNames ms := by
  refine ⟨hn.map fun _ _ => units_injective, fun k hk => ?_⟩
  obtain ⟨name, hname, rfl⟩ := List.mem_map.mp hk
  exact plainKey_units (List.all_eq_true.mp h name hname)

theorem ManifestRef.plain (r : ManifestRef) : PlainNames r.members := plainNames_of (by simp [ManifestRef.members]) (by simp [ManifestRef.members]; decide)

theorem RepositoryRef.plain (r : RepositoryRef) : PlainNames r.members := plainNames_of (by simp [RepositoryRef.members]) (by simp [RepositoryRef.members]; decide)

theorem PackageChunkRef.plain (c : PackageChunkRef) : PlainNames c.members := plainNames_of (by simp [PackageChunkRef.members]) (by simp [PackageChunkRef.members]; decide)

theorem SourceRef.plain (r : SourceRef) : PlainNames r.members := plainNames_of (by simp [SourceRef.members]) (by simp [SourceRef.members]; decide)

theorem CohortDigest.plain (c : CohortDigest) : PlainNames c.members := plainNames_of (by simp [CohortDigest.members]) (by simp [CohortDigest.members]; decide)

theorem ChangelogRef.plain (c : ChangelogRef) : PlainNames c.members := plainNames_of (by simp [ChangelogRef.members]) (by simp [ChangelogRef.members]; decide)

theorem RecoveryRef.plain (r : RecoveryRef) : PlainNames r.members := plainNames_of (by simp [RecoveryRef.members]) (by simp [RecoveryRef.members]; decide)

theorem Identity.plain (i : Identity) : PlainNames i.members := plainNames_of (by simp [Identity.members]) (by simp [Identity.members]; decide)

theorem Parent.plain (p : Parent) : PlainNames p.members := plainNames_of (by simp [Parent.members]) (by simp [Parent.members]; decide)

theorem Compatibility.plain (c : Compatibility) : PlainNames c.members := plainNames_of (by simp [Compatibility.members]) (by simp [Compatibility.members]; decide)

theorem Approvals.plain (a : Approvals) : PlainNames a.members := plainNames_of (by simp [Approvals.members]) (by simp [Approvals.members]; decide)

theorem plain_policy : PlainNames policyMembers := plainNames_of (by simp [policyMembers]) (by simp [policyMembers]; decide)

theorem ReleaseManifest.plain (m : ReleaseManifest) : PlainNames m.members := plainNames_of (by simp [ReleaseManifest.members]) (by simp [ReleaseManifest.members]; decide)

section
variable (d : Nat)

@[simp]
theorem ManifestRef.shaped (r : ManifestRef) : Shaped (d + 1) r.toJson :=
  shaped_jsObject r.plain (by simp [ManifestRef.members, shaped_orNull])

@[simp]
theorem RepositoryRef.shaped (r : RepositoryRef) : Shaped (d + 1) r.toJson :=
  shaped_jsObject r.plain (by simp [RepositoryRef.members])

@[simp]
theorem PackageChunkRef.shaped (c : PackageChunkRef) : Shaped (d + 1) c.toJson :=
  shaped_jsObject c.plain (by simp [PackageChunkRef.members])

@[simp]
theorem SourceRef.shaped (r : SourceRef) : Shaped (d + 1) r.toJson :=
  shaped_jsObject r.plain (by simp [SourceRef.members])

@[simp]
theorem CohortDigest.shaped (c : CohortDigest) : Shaped (d + 1) c.toJson :=
  shaped_jsObject c.plain (by simp [CohortDigest.members])

@[simp]
theorem ChangelogRef.shaped (c : ChangelogRef) : Shaped (d + 3) c.toJson :=
  shaped_jsObject c.plain (by simp [ChangelogRef.members, shaped_arr])

@[simp]
theorem RecoveryRef.shaped (r : RecoveryRef) : Shaped (d + 2) r.toJson :=
  shaped_jsObject r.plain (by simp [RecoveryRef.members, shaped_orNull, shaped_arr])

@[simp]
theorem Identity.shaped (i : Identity) : Shaped (d + 1) i.toJson :=
  shaped_jsObject i.plain (by simp [Identity.members, shaped_orNull])

@[simp]
theorem Parent.shaped (p : Parent) : Shaped (d + 1) p.toJson :=
  shaped_jsObject p.plain (by simp [Parent.members, shaped_orNull])

@[simp]
theorem Compatibility.shaped (c : Compatibility) : Shaped (d + 2) c.toJson :=
  shaped_jsObject c.plain (by simp [Compatibility.members, shaped_orNull, shaped_arr])

@[simp]
theorem Approvals.shaped (a : Approvals) : Shaped (d + 2) a.toJson :=
  shaped_jsObject a.plain (by simp [Approvals.members, shaped_arr])

@[simp]
theorem shaped_policyJson : Shaped (d + 1) policyJson :=
  shaped_jsObject plain_policy (by simp [policyMembers])

end

/-- A manifest's document has plain names and nests four deep. -/
theorem ReleaseManifest.shaped (m : ReleaseManifest) : Shaped 4 m.toJson :=
  shaped_jsObject m.plain (by simp [ReleaseManifest.members, shaped_orNull, shaped_arr])

end Omapkg.Server
