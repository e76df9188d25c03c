import Omapkg.Wire.Manifest
/-!
# Transactions at the client

What `parseTransaction` makes of a transaction manifest the server built, and
when it accepts one. Everything the server makes sure of passes the client's
checks; what remains is that no repository name repeats, that a recovery has
constraints, and that the clock did not pass the expiry while the manifest was
made.
-/

namespace Omapkg.Wire

open Json Utf Omapkg.Server Omapkg.Client

/-! ## Fields -/

section
variable {ms : List (String × Json JsString)} (h : PlainNames ms) {key : String}
include h

theorem stringAt_str {s : JsString} (hl : ms.lookup key = some (.str s)) :
    stringAt (receivedFields ms) key = toText s := by
  simp only [stringAt, stringField, lookup_receivedFields h, hl, Option.map_some, received_str, Option.getD_some]

theorem stringField_text {s : String} (hl : ms.lookup key = some (jsText s)) :
    stringField (receivedFields ms) key = some s := by
  simp only [stringField, lookup_receivedFields h, hl, Option.map_some, jsText, received_str, toText_units]

theorem stringAt_text {s : String} (hl : ms.lookup key = some (jsText s)) :
    stringAt (receivedFields ms) key = s := by
  rw [stringAt, stringField_text h hl, Option.getD_some]

theorem stringAt_orNull {s : Option JsString} (hl : ms.lookup key = some (orNull .str s)) :
    stringAt (receivedFields ms) key = (s.map toText).getD "" := by
  rw [stringAt, stringField, lookup_receivedFields h, hl]
  cases s <;> rfl

theorem stringAt_missing (hl : ms.lookup key = none) : stringAt (receivedFields ms) key = "" := by
  rw [stringAt, stringField, lookup_receivedFields h, hl]
  rfl

theorem objectField_object {ms' : List (String × Json JsString)} (h' : PlainNames ms')
    (hl : ms.lookup key = some (jsObject ms')) :
    objectField (receivedFields ms) key = some (receivedFields ms') := by
  simp only [objectField, lookup_receivedFields h, hl, Option.map_some, received_jsObject h']

theorem objectField_missing (hl : ms.lookup key = none) : objectField (receivedFields ms) key = none := by
  rw [objectField, lookup_receivedFields h, hl]
  rfl

theorem arrayField_arr {xs : List (Json JsString)} (hl : ms.lookup key = some (.arr xs)) :
    arrayField (receivedFields ms) key = some (xs.map received) := by
  simp only [arrayField, lookup_receivedFields h, hl, Option.map_some, received_arr]

theorem numeralField_nat {n : Nat} (hl : ms.lookup key = some (jsNat n)) :
    numeralField (receivedFields ms) key = some (.ofNat n) := by
  simp only [numeralField, lookup_receivedFields h, hl, Option.map_some, jsNat, received_num]

theorem uint64Field_nat {n : Nat} (hl : ms.lookup key = some (jsNat n)) (hn : n < 2 ^ 64) :
    uint64Field (receivedFields ms) key = some n := by
  rw [uint64Field, numeralField_nat h hl, Option.bind_some, strconvParseUint_ofNat hn]

theorem numberFieldOK_nat {n : Nat} (hl : ms.lookup key = some (jsNat n)) (hn : n < 2 ^ 63) :
    numberFieldOK (receivedFields ms) key = some (n : Int) := by
  rw [numberFieldOK, numeralField_nat h hl, Option.bind_some, sscanInt_ofNat hn]

theorem int64Field_nat {n : Nat} (hl : ms.lookup key = some (jsNat n)) (hn : n < 2 ^ 63) :
    int64Field (receivedFields ms) key = ((n : Int), true) := by
  rw [int64Field, numeralField_nat h hl]
  exact numberInt64_ofNat hn

theorem stringSlice_str {α : Type} {f : α → JsString} {xs : List α}
    (hl : ms.lookup key = some (.arr (xs.map fun x => .str (f x)))) :
    stringSlicePreserve (receivedFields ms) key = xs.map fun x => toText (f x) := by
  rw [stringSlicePreserve, arrayField_arr h hl, Option.getD_some, List.map_map, List.filterMap_map]
  simp [Function.comp_def]

end

/-! ## Parts -/

/-- The client's reading of a reference. -/
def clientRef (r : Server.ManifestRef) : Client.ManifestRef where
  url := toText r.url
  digest := toText r.digest
  signatureUrl := toText r.signatureUrl
  channel := r.channel.text
  sequence := r.sequence
  version := (r.version.map toText).getD ""
  generation := (r.generation.map toText).getD ""

theorem parseManifestRef_received {r : Server.ManifestRef} (hr : r.sequence < 2 ^ 64) :
    parseManifestRef (receivedFields r.members) = clientRef r := by
  have hp := r.plain
  have hurl : stringAt (receivedFields r.members) "url" = toText r.url := stringAt_str hp rfl
  have hdigest : stringAt (receivedFields r.members) "digest" = toText r.digest := stringAt_str hp rfl
  have hsig : stringAt (receivedFields r.members) "signatureUrl" = toText r.signatureUrl := stringAt_str hp rfl
  have h1 : stringAt (receivedFields r.members) "manifestUrl" = "" := stringAt_missing hp rfl
  have h2 : stringAt (receivedFields r.members) "manifestURL" = "" := stringAt_missing hp rfl
  have h3 : stringAt (receivedFields r.members) "manifestSha256" = "" := stringAt_missing hp rfl
  have h4 : stringAt (receivedFields r.members) "signatureURL" = "" := stringAt_missing hp rfl
  have or_empty : ∀ s : String, (if s = "" then "" else s) = s := fun s => by
    by_cases hs : s = "" <;> simp [hs]
  simp only [parseManifestRef, stringAtOr, hurl, hdigest, hsig, h1, h2, h3, h4, or_empty,
    stringAt_text hp (show r.members.lookup "channel" = some (jsText r.channel.text) from rfl),
    stringAt_orNull hp (show r.members.lookup "version" = some (orNull .str r.version) from rfl),
    stringAt_orNull hp (show r.members.lookup "generation" = some (orNull .str r.generation) from rfl),
    uint64Field_nat hp (show r.members.lookup "sequence" = some (jsNat r.sequence) from rfl) hr,
    Option.getD_some, clientRef]

/-- The client's reading of a repository. -/
def clientRepository (r : RepositoryRef) : Repository where
  name := r.name.text
  architecture := r.architecture.text
  snapshotDigest := toText r.snapshotDigest
  dbUrl := toText r.dbUrl
  signatureUrl := toText r.signatureUrl
  packageBaseUrl := toText r.packageBaseUrl

theorem parseRepository_received (r : RepositoryRef) :
    parseRepository (receivedFields r.members) = clientRepository r := by
  have hp := r.plain
  have h1 : stringAt (receivedFields r.members) "dbUrl" = toText r.dbUrl := stringAt_str hp rfl
  have h2 : stringAt (receivedFields r.members) "signatureUrl" = toText r.signatureUrl := stringAt_str hp rfl
  have h3 : stringAt (receivedFields r.members) "packageBaseUrl" = toText r.packageBaseUrl := stringAt_str hp rfl
  have h4 : stringAt (receivedFields r.members) "dbURL" = "" := stringAt_missing hp rfl
  have h5 : stringAt (receivedFields r.members) "signatureURL" = "" := stringAt_missing hp rfl
  have h6 : stringAt (receivedFields r.members) "packageBaseURL" = "" := stringAt_missing hp rfl
  have or_empty : ∀ s : String, (if s = "" then "" else s) = s := fun s => by
    by_cases hs : s = "" <;> simp [hs]
  simp only [parseRepository, stringAtOr, h1, h2, h3, h4, h5, h6, or_empty, clientRepository,
    stringAt_text hp (show r.members.lookup "name" = some (jsText r.name.text) from rfl),
    stringAt_text hp (show r.members.lookup "architecture" = some (jsText r.architecture.text) from rfl),
    stringAt_str hp (show r.members.lookup "snapshotDigest" = some (.str r.snapshotDigest) from rfl)]

theorem RepositoryName.text_injective {a b : RepositoryName} (h : a.text = b.text) : a = b := by
  cases a <;> cases b <;> first | rfl | exact absurd h (by decide)

/-- The client reads the repositories in order, unless a name repeats. -/
theorem parseRepositories_received (rs : List RepositoryRef) (seen : List String) (out : List Repository) :
    parseRepositories seen (rs.map fun r => received r.toJson) = .ok out ↔
      (rs.map RepositoryRef.name).Nodup ∧ (∀ r ∈ rs, r.name.text ∉ seen) ∧ out = rs.map clientRepository := by
  induction rs generalizing seen out with
  | nil => simp [parseRepositories, eq_comm]
  | cons r rs ih =>
    have hobj : received r.toJson = .obj (receivedFields r.members) := received_jsObject r.plain
    have hname : (clientRepository r).name = r.name.text := rfl
    rw [List.map_cons, hobj, parseRepositories, parseRepository_received, hname, Fallible.guard_ok]
    have hseen : (∀ r' ∈ rs, r'.name.text ∉ r.name.text :: seen) ↔
        r.name ∉ rs.map RepositoryRef.name ∧ ∀ r' ∈ rs, r'.name.text ∉ seen := by
      constructor
      · intro h
        refine ⟨fun hmem => ?_, fun r' hr' hs => h r' hr' (List.mem_cons_of_mem _ hs)⟩
        obtain ⟨r', hr', he⟩ := List.mem_map.mp hmem
        exact h r' hr' (by rw [he]; exact List.mem_cons_self)
      · rintro ⟨hn, hs⟩ r' hr' hmem
        rcases List.mem_cons.mp hmem with he | hmem
        · exact hn (List.mem_map.mpr ⟨r', hr', RepositoryName.text_injective he⟩)
        · exact hs r' hr' hmem
    constructor
    · rintro ⟨hr, h⟩
      split at h
      · rename_i out' hout
        obtain ⟨hnodup, hs, rfl⟩ := (ih _ _).mp hout
        obtain ⟨hn, hs⟩ := hseen.mp hs
        obtain rfl := Except.ok.inj h
        exact ⟨List.nodup_cons.mpr ⟨hn, hnodup⟩, List.forall_mem_cons.mpr ⟨hr, hs⟩, rfl⟩
      · exact absurd h (by simp)
    · rintro ⟨hnodup, hs, rfl⟩
      obtain ⟨hn, hnodup⟩ := List.nodup_cons.mp hnodup
      obtain ⟨hr, hs⟩ := List.forall_mem_cons.mp hs
      have hout := (ih (r.name.text :: seen) (rs.map clientRepository)).mpr ⟨hnodup, hseen.mpr ⟨hn, hs⟩, rfl⟩
      exact ⟨hr, by rw [hout]; rfl⟩

/-- The client's reading of a chunk. -/
def clientChunk (c : PackageChunkRef) : PackageChunk where
  url := toText c.url
  digest := toText c.sha256
  size := c.size
  index := c.index
  count := c.count
  packageCount := c.packageCount

/-- The numbers of a chunk fit the client's. -/
def ChunkFits (c : PackageChunkRef) : Prop :=
  c.size < 2 ^ 63 ∧ c.index < 2 ^ 63 ∧ c.count < 2 ^ 63 ∧ c.packageCount < 2 ^ 63

theorem parseChunk_received {c : PackageChunkRef} (hc : ChunkFits c) :
    parseChunk (receivedFields c.members) = clientChunk c := by
  have hp := c.plain
  obtain ⟨h1, h2, h3, h4⟩ := hc
  simp only [parseChunk, clientChunk,
    stringAt_str hp (show c.members.lookup "url" = some (.str c.url) from rfl),
    stringAt_str hp (show c.members.lookup "sha256" = some (.str c.sha256) from rfl),
    int64Field_nat hp (show c.members.lookup "size" = some (jsNat c.size) from rfl) h1,
    numberFieldOK_nat hp (show c.members.lookup "index" = some (jsNat c.index) from rfl) h2,
    numberFieldOK_nat hp (show c.members.lookup "count" = some (jsNat c.count) from rfl) h3,
    numberFieldOK_nat hp (show c.members.lookup "packageCount" = some (jsNat c.packageCount) from rfl) h4,
    Option.getD_some]

theorem parseChunks_received {cs : List PackageChunkRef} (hc : ∀ c ∈ cs, ChunkFits c) :
    parseChunks (cs.map fun c => received c.toJson) = .ok (cs.map clientChunk) := by
  induction cs with
  | nil => rfl
  | cons c cs ih =>
    have hobj : received c.toJson = .obj (receivedFields c.members) := received_jsObject c.plain
    rw [List.map_cons, hobj, parseChunks, ih fun c' h => hc c' (List.mem_cons_of_mem _ h),
      parseChunk_received (hc c List.mem_cons_self)]
    rfl

/-! ## Texts of ASCII patterns -/

/-- A digest the server checked passes the client's pattern. -/
theorem isSha256_toText {s : JsString} (h : Server.isSha256 s = true) : Client.isSha256 (toText s) = true := by
  have hascii : IsAscii s := by
    intro u hu
    simp only [Server.isSha256, Hash.isHexDigest, Bool.and_eq_true, List.all_eq_true] at h
    have hx := h.2 (Char.ofNat u.toNat) (List.mem_map_of_mem hu)
    have hid : isIdChar (Char.ofNat u.toNat) = true := by
      simp only [Hash.isLowerHex, Bool.or_eq_true, Bool.and_eq_true, decide_eq_true_eq] at hx
      simp only [isIdChar, isAlnum, Bool.or_eq_true, Bool.and_eq_true, decide_eq_true_eq]
      rcases hx with hx | ⟨h1, h2⟩
      · exact .inl (.inl (.inl (.inr hx)))
      · exact .inl (.inl (.inl (.inl (.inr ⟨h1, h2.trans (by decide)⟩))))
    exact idUnit_lt hid
  rw [Client.isSha256, toText_ascii hascii]
  exact h

theorem toText_ne_empty {s : JsString} (h : s ≠ []) : toText s ≠ "" := by
  intro he
  have hnil : (codePoints s).map CodePoint.char = [] := by
    have := congrArg String.toList he
    rwa [toText, String.toList_ofList] at this
  exact h (codePoints_eq_nil (List.map_eq_nil_iff.mp hnil))

/-! ## The transaction -/

/-- A reference that is complete for the client. -/
structure RefFits (r : Server.ManifestRef) : Prop where
  url : r.url ≠ []
  digest : Server.isSha256 r.digest = true
  signatureUrl : r.signatureUrl ≠ []
  sequence : 0 < r.sequence ∧ r.sequence < 2 ^ 63

/-- A transaction manifest with everything in place, whatever its repositories
and constraints and whether or not it has expired. -/
structure Presentable (m : ReleaseManifest) (systemRef oprRef : Server.ManifestRef) : Prop where
  kind : m.kind = .resolvedTransaction
  lane : m.lane = .transaction
  channel : m.channel ≠ .quarantine
  releaseId : m.releaseId ≠ []
  architectures : m.architectures ≠ []
  times : 0 < m.createdAt ∧ m.createdAt < 2 ^ 63 ∧ m.expiresAt < 2 ^ 63
  sequence : 0 < m.sequence ∧ m.sequence < 2 ^ 63
  parentDigest : IsDigest m.parent.digest
  parentSequence : ∀ n ∈ m.parent.sequence, n < 2 ^ 63
  systemManifest : m.systemManifest = some systemRef
  oprManifest : m.oprManifest = some oprRef
  systemRef : RefFits systemRef
  oprRef : RefFits oprRef
  target : ∀ r ∈ m.recovery.target, r.sequence < 2 ^ 63
  repositories : m.repositories ≠ []
  packageChunks : ∀ c ∈ m.packageChunks,
    ChunkFits c ∧ c.url ≠ [] ∧ Server.isSha256 c.sha256 = true ∧ 0 < c.size ∧ c.index < c.count
  packageCount : m.packageCount < 2 ^ 63
  changelog : Server.isSha256 m.changelog.sha256 = true ∧ m.changelog.approvedBy ≠ []
  cohortDigests : (m.changelog.cohortDigests.map CohortDigest.cohortId).Nodup ∧
    ∀ c ∈ m.changelog.cohortDigests,
      isCohortId c.cohortId = true ∧ 1 ≤ c.revision ∧ c.revision < 2 ^ 63 ∧ Server.isSha256 c.digest = true

/-- The client's reading of a transaction manifest. -/
def clientTransaction (m : ReleaseManifest) (systemRef oprRef : Server.ManifestRef) : Transaction where
  kind := m.kind.text
  lane := m.lane.text
  channel := m.channel.text
  releaseId := toText m.releaseId
  architecture := ""
  architectures := m.architectures.map Architecture.text
  identity := ⟨(m.identity.version.map toText).getD "", (m.identity.generation.map toText).getD ""⟩
  parent := ⟨(m.parent.digest.map toText).getD "", m.parent.sequence.getD 0⟩
  createdAt := m.createdAt
  expiresAt := m.expiresAt
  sequence := m.sequence
  repositories := m.repositories.map clientRepository
  compatibility :=
    { systemManifestDigest := (m.compatibility.systemManifestDigest.map toText).getD ""
      systemSnapshotDigests := (m.compatibility.systemSnapshotDigests.map toText).insertionSort (· ≤ ·)
      oprManifestDigest := (m.compatibility.oprManifestDigest.map toText).getD ""
      oprSnapshotDigest := "" }
  recovery :=
    { fromDigest := (m.recovery.fromDigest.map toText).getD ""
      target := m.recovery.target.map clientRef
      authorized := m.recovery.authorized
      reason := (m.recovery.reason.map toText).getD ""
      constraints := m.recovery.constraints.map toText }
  systemRef := clientRef systemRef
  oprRef := clientRef oprRef
  rollbackRef := m.recovery.target.map clientRef
  packageChunks := m.packageChunks.map clientChunk
  packageCount := m.packageCount
  digest := ""
  raw := []

section
variable {m : ReleaseManifest} {systemRef oprRef : Server.ManifestRef}

theorem parseIdentity_received : parseIdentity (receivedManifest m) =
    ⟨(m.identity.version.map toText).getD "", (m.identity.generation.map toText).getD ""⟩ := by
  have hp := m.identity.plain
  rw [parseIdentity, receivedManifest, objectField_object m.plain hp rfl]
  simp only [stringAt_orNull hp (show m.identity.members.lookup "version" = some (orNull .str m.identity.version) from rfl),
    stringAt_orNull hp (show m.identity.members.lookup "generation" = some (orNull .str m.identity.generation) from rfl)]

theorem parseParent_received (h : ∀ n ∈ m.parent.sequence, n < 2 ^ 63) : parseParent (receivedManifest m) =
    ⟨(m.parent.digest.map toText).getD "", m.parent.sequence.getD 0⟩ := by
  have hp := m.parent.plain
  have hseq : (uint64Field (receivedFields m.parent.members) "sequence").getD 0 = m.parent.sequence.getD 0 := by
    have hl : m.parent.members.lookup "sequence" = some (orNull jsNat m.parent.sequence) := rfl
    rcases hs : m.parent.sequence with _ | n <;> rw [hs] at hl
    · rw [uint64Field, numeralField, lookup_receivedFields hp, hl]
      rfl
    · exact congrArg (Option.getD · 0) (uint64Field_nat hp hl ((h n hs).trans (by decide)))
  rw [parseParent, receivedManifest, objectField_object m.plain hp rfl]
  simp only [stringAt_orNull hp (show m.parent.members.lookup "digest" = some (orNull .str m.parent.digest) from rfl),
    hseq]

theorem parseCompatibility_received : parseCompatibility (receivedManifest m) =
    { systemManifestDigest := (m.compatibility.systemManifestDigest.map toText).getD ""
      systemSnapshotDigests := (m.compatibility.systemSnapshotDigests.map toText).insertionSort (· ≤ ·)
      oprManifestDigest := (m.compatibility.oprManifestDigest.map toText).getD ""
      oprSnapshotDigest := "" } := by
  have hp := m.compatibility.plain
  have hslice : stringSlicePreserve (receivedFields m.compatibility.members) "systemSnapshotDigests" =
      m.compatibility.systemSnapshotDigests.map toText := stringSlice_str hp rfl
  have h1 : stringAt (receivedFields m.compatibility.members) "systemManifestDigest" =
      (m.compatibility.systemManifestDigest.map toText).getD "" := stringAt_orNull hp rfl
  have h2 : stringAt (receivedFields m.compatibility.members) "oprManifestDigest" =
      (m.compatibility.oprManifestDigest.map toText).getD "" := stringAt_orNull hp rfl
  have h3 : stringAt (receivedFields m.compatibility.members) "oprSnapshotDigest" = "" := stringAt_missing hp rfl
  rw [parseCompatibility, receivedManifest, objectField_object m.plain hp rfl]
  simp only [stringSliceField, hslice, h1, h2, h3]

theorem parseRecovery_received (h : ∀ r ∈ m.recovery.target, r.sequence < 2 ^ 63) :
    parseRecovery (receivedManifest m) =
      { fromDigest := (m.recovery.fromDigest.map toText).getD ""
        target := m.recovery.target.map clientRef
        authorized := m.recovery.authorized
        reason := (m.recovery.reason.map toText).getD ""
        constraints := m.recovery.constraints.map toText } := by
  have hp := m.recovery.plain
  have htarget : (objectField (receivedFields m.recovery.members) "target").map parseManifestRef =
      m.recovery.target.map clientRef := by
    have hl : m.recovery.members.lookup "target" = some (orNull Server.ManifestRef.toJson m.recovery.target) := rfl
    rcases ht : m.recovery.target with _ | r <;> rw [ht] at hl
    · rw [objectField, lookup_receivedFields hp, hl]
      rfl
    · have hr : r.sequence < 2 ^ 64 := (h r (by rw [ht]; rfl)).trans (by decide)
      rw [objectField_object hp r.plain hl, Option.map_some, parseManifestRef_received hr]
      rfl
  have hslice : stringSlicePreserve (receivedFields m.recovery.members) "constraints" =
      m.recovery.constraints.map toText := stringSlice_str hp rfl
  have hbool : boolField (receivedFields m.recovery.members) "authorized" = some m.recovery.authorized := by
    rw [boolField, lookup_receivedFields hp]
    rfl
  have h1 : stringAt (receivedFields m.recovery.members) "fromDigest" =
      (m.recovery.fromDigest.map toText).getD "" := stringAt_orNull hp rfl
  have h2 : stringAt (receivedFields m.recovery.members) "reason" =
      (m.recovery.reason.map toText).getD "" := stringAt_orNull hp rfl
  rw [parseRecovery, receivedManifest, objectField_object m.plain hp rfl]
  simp only [htarget, hslice, hbool, h1, h2, Option.getD_some]

theorem parseLaneRef_received {key other : String} {r : Server.ManifestRef}
    (hl : m.members.lookup key = some r.toJson) (hr : r.sequence < 2 ^ 63) :
    parseLaneRef (receivedManifest m) key other = clientRef r := by
  have hobj : objectField (receivedManifest m) key = some (receivedFields r.members) :=
    objectField_object m.plain r.plain hl
  rw [parseLaneRef, hobj]
  exact parseManifestRef_received (hr.trans (by decide))

/-- The client reads the manifest's own values. -/
theorem readTransaction_received (h : Presentable m systemRef oprRef) :
    readTransaction (receivedManifest m) (m.repositories.map clientRepository) (m.packageChunks.map clientChunk)
      m.packageCount = clientTransaction m systemRef oprRef := by
  have hp := m.plain
  have harch : stringSlicePreserve (receivedManifest m) "architectures" =
      m.architectures.map Architecture.text := by
    have hl : m.members.lookup "architectures" =
        some (.arr (m.architectures.map fun a => .str (units a.text))) := rfl
    rw [receivedManifest, stringSlice_str hp hl]
    simp only [toText_units]
  have hnoarch : stringAt (receivedManifest m) "architecture" = "" := stringAt_missing hp rfl
  have hsl : m.members.lookup "systemManifest" = some (orNull Server.ManifestRef.toJson m.systemManifest) := rfl
  have hol : m.members.lookup "oprManifest" = some (orNull Server.ManifestRef.toJson m.oprManifest) := rfl
  rw [h.systemManifest] at hsl
  rw [h.oprManifest] at hol
  have hsystem : parseLaneRef (receivedManifest m) "systemManifest" "system" = clientRef systemRef :=
    parseLaneRef_received hsl h.systemRef.sequence.2
  have hopr : parseLaneRef (receivedManifest m) "oprManifest" "opr" = clientRef oprRef :=
    parseLaneRef_received hol h.oprRef.sequence.2
  have hrollback : parseRollbackRef (receivedManifest m) = m.recovery.target.map clientRef := by
    have hmissing : objectField (receivedManifest m) "rollbackControl" = none := objectField_missing hp rfl
    rw [parseRollbackRef, hmissing, parseRecovery_received h.target]
  have hkind : stringAt (receivedManifest m) "kind" = m.kind.text := stringAt_text hp rfl
  have hlane : stringAt (receivedManifest m) "lane" = m.lane.text := stringAt_text hp rfl
  have hchannel : stringAt (receivedManifest m) "channel" = m.channel.text := stringAt_text hp rfl
  have hid : stringAt (receivedManifest m) "releaseId" = toText m.releaseId := stringAt_str hp rfl
  have hcreated : int64Field (receivedManifest m) "createdAt" = ((m.createdAt : Int), true) :=
    int64Field_nat hp rfl h.times.2.1
  have hexpires : int64Field (receivedManifest m) "expiresAt" = ((m.expiresAt : Int), true) :=
    int64Field_nat hp rfl h.times.2.2
  have hseq : uint64Field (receivedManifest m) "sequence" = some m.sequence :=
    uint64Field_nat hp rfl (h.sequence.2.trans (by decide))
  simp only [readTransaction, clientTransaction, hkind, hlane, hchannel, hid, hnoarch, harch, hcreated, hexpires,
    hseq, parseIdentity_received, parseParent_received h.parentSequence, parseCompatibility_received,
    parseRecovery_received h.target, hsystem, hopr, hrollback, ne_eq, not_true_eq_false, and_false, if_false,
    Option.getD_some]

theorem cohortId_ascii {s : JsString} (h : isCohortId s = true) : IsAscii s ∧ s ≠ [] := by
  simp only [isCohortId, Bool.and_eq_true] at h
  refine ⟨isAscii_of_id (isIdWord_isIdChar h.1), ?_⟩
  rintro rfl
  exact absurd h.1 (by decide)

theorem validateCohortDigests_received (cs : List CohortDigest) (seen : List JsString)
    (hn : (cs.map CohortDigest.cohortId).Nodup) (hs : ∀ c ∈ cs, c.cohortId ∉ seen)
    (ha : ∀ s ∈ seen, IsAscii s)
    (hc : ∀ c ∈ cs, isCohortId c.cohortId = true ∧ 1 ≤ c.revision ∧ c.revision < 2 ^ 63 ∧
      Server.isSha256 c.digest = true) :
    validateCohortDigestsFrom (seen.map toText) (cs.map fun c => received c.toJson) = .ok () := by
  induction cs generalizing seen with
  | nil => rfl
  | cons c cs ih =>
    obtain ⟨⟨hid, hr1, hr2, hd⟩, hc⟩ := List.forall_mem_cons.mp hc
    obtain ⟨hseen, hs⟩ := List.forall_mem_cons.mp hs
    obtain ⟨hnot, hn⟩ := List.nodup_cons.mp hn
    obtain ⟨hascii, hne⟩ := cohortId_ascii hid
    have hp := c.plain
    have hobj : received c.toJson = .obj (receivedFields c.members) := received_jsObject hp
    have h1 : stringAt (receivedFields c.members) "cohortId" = toText c.cohortId := stringAt_str hp rfl
    have h2 : numberFieldOK (receivedFields c.members) "revision" = some (c.revision : Int) :=
      numberFieldOK_nat hp rfl hr2
    have h3 : stringAt (receivedFields c.members) "digest" = toText c.digest := stringAt_str hp rfl
    have hnotseen : toText c.cohortId ∉ seen.map toText := by
      rintro hmem
      obtain ⟨s, hs, he⟩ := List.mem_map.mp hmem
      have : s = c.cohortId := by rw [← units_toText (ha s hs), he, units_toText hascii]
      exact hseen (this ▸ hs)
    rw [List.map_cons, hobj, validateCohortDigestsFrom, h1, h2, h3, isSha256_toText hd,
      if_neg (by rintro (h | h); exacts [toText_ne_empty hne h, hnotseen h]),
      if_neg (by rw [Option.getD_some]; omega), if_neg (by simp)]
    refine ih (c.cohortId :: seen) hn ?_ ?_ hc
    · intro c' hc' hmem
      rcases List.mem_cons.mp hmem with he | hmem
      · exact hnot (List.mem_map.mpr ⟨c', hc', he⟩)
      · exact hs c' hc' hmem
    · exact List.forall_mem_cons.mpr ⟨hascii, ha⟩

theorem policySupported_received : policySupported (receivedManifest m) = true := by
  have hobj : objectField (receivedManifest m) "policy" = some (receivedFields policyMembers) :=
    objectField_object m.plain plain_policy rfl
  have h1 : numberFieldOK (receivedFields policyMembers) "schemaVersion" = some ((1 : Nat) : Int) :=
    numberFieldOK_nat plain_policy rfl (by decide)
  have h2 : stringField (receivedFields policyMembers) "version" = some distributionReleasePolicy :=
    stringField_text plain_policy rfl
  simp only [policySupported, hobj, numberField, h1, h2]
  rfl

theorem approvedChangelog_received (h : Server.isSha256 m.changelog.sha256 = true ∧ m.changelog.approvedBy ≠ []) :
    approvedChangelog (receivedManifest m) = some (receivedFields m.changelog.members) := by
  have hp := m.changelog.plain
  have hobj : objectField (receivedManifest m) "changelog" = some (receivedFields m.changelog.members) :=
    objectField_object m.plain hp rfl
  have h1 : stringAt (receivedFields m.changelog.members) "sha256" = toText m.changelog.sha256 :=
    stringAt_str hp rfl
  have h2 : stringAt (receivedFields m.changelog.members) "approvedBy" = toText m.changelog.approvedBy :=
    stringAt_str hp rfl
  simp only [approvedChangelog, hobj, h1, h2]
  exact if_pos ⟨isSha256_toText h.1, toText_ne_empty h.2⟩

theorem parseChunkIndex_received (h : ∀ c ∈ m.packageChunks, ChunkFits c) :
    parseChunkIndex (receivedManifest m) = .ok (some (m.packageChunks.map clientChunk)) := by
  have hl : (receivedManifest m).lookup "packageChunks" =
      some (.arr (m.packageChunks.map fun c => received c.toJson)) := by
    rw [receivedManifest, lookup_receivedFields m.plain,
      show m.members.lookup "packageChunks" = some (.arr (m.packageChunks.map PackageChunkRef.toJson)) from rfl,
      Option.map_some, received_arr, List.map_map]
    rfl
  simp only [parseChunkIndex, hl, parseChunks_received h]

theorem ref_complete {r : Server.ManifestRef} (h : RefFits r) : (clientRef r).complete = true := by
  have hchannel : r.channel.text ≠ "" := by cases r.channel <;> decide
  simp only [Client.ManifestRef.complete, clientRef, Bool.and_eq_true]
  exact ⟨⟨⟨⟨decide_eq_true (toText_ne_empty h.url), decide_eq_true (toText_ne_empty h.signatureUrl)⟩,
    decide_eq_true hchannel⟩, decide_eq_true h.sequence.1.ne'⟩, isSha256_toText h.digest⟩

theorem chunk_valid {c : PackageChunkRef} (hu : c.url ≠ []) (hd : Server.isSha256 c.sha256 = true)
    (hs : 0 < c.size) (hi : c.index < c.count) : (clientChunk c).valid = true := by
  simp only [PackageChunk.valid, clientChunk, Bool.and_eq_true]
  exact ⟨⟨⟨⟨⟨⟨decide_eq_true (toText_ne_empty hu), isSha256_toText hd⟩, decide_eq_true (by omega)⟩,
    decide_eq_true (by omega)⟩, decide_eq_true (by omega)⟩, decide_eq_true (by omega)⟩, decide_eq_true (by omega)⟩

/-- The client's checks of the fields leave the constraints of a recovery and
the order of the times to be seen. -/
theorem validateTransactionFields_received (h : Presentable m systemRef oprRef) {digest : String}
    (hd : Client.isSha256 digest = true) :
    validateTransactionFields (clientTransaction m systemRef oprRef) digest = .ok () ↔
      (m.recovery.authorized = true → m.recovery.constraints ≠ []) ∧ m.createdAt < m.expiresAt := by
  have hid : toText m.releaseId ≠ "" := toText_ne_empty h.releaseId
  have harch : m.architectures.map Architecture.text ≠ [] := fun he => h.architectures (List.map_eq_nil_iff.mp he)
  have hall : (m.architectures.map Architecture.text).all (fun a => a = "x86_64" || a = "aarch64") = true := by
    rw [List.all_map, List.all_eq_true]
    rintro (_ | _) _ <;> rfl
  have hparent : (m.parent.digest.map toText).getD "" ≠ "" →
      Client.isSha256 ((m.parent.digest.map toText).getD "") = true := by
    intro hne
    rcases hp : m.parent.digest with _ | d
    · rw [hp] at hne; exact absurd rfl hne
    · exact isSha256_toText (h.parentDigest d hp)
  have hchannel : isChannel m.channel.text = true := by
    have := h.channel
    revert this
    cases m.channel <;> decide
  have hchunks : (m.packageChunks.map clientChunk).all PackageChunk.valid = true := by
    rw [List.all_map, List.all_eq_true]
    intro c hc
    obtain ⟨-, hu, hsha, hs, hi⟩ := h.packageChunks c hc
    exact chunk_valid hu hsha hs hi
  have hcreated : ¬(m.createdAt : Int) ≤ 0 := by have := h.times.1; omega
  have hcount : ¬((m.packageCount : Int) < 0) := by omega
  have hconstraints : m.recovery.constraints.map toText = [] ↔ m.recovery.constraints = [] :=
    List.map_eq_nil_iff
  simp only [validateTransactionFields, clientTransaction, hid, harch, hall, hd, hchannel, hchunks,
    ref_complete h.systemRef, ref_complete h.oprRef, hcreated, hcount, hconstraints, h.lane, h.sequence.1.ne',
    Lane.text, or_self, or_false, false_or, if_false, Bool.true_eq_false, ne_eq, not_true_eq_false]
  rw [Fallible.guard_ok, Fallible.guard_ok, Fallible.guard_ok]
  have hbad : ¬(¬(m.parent.digest.map toText).getD "" = "" ∧
      Client.isSha256 ((m.parent.digest.map toText).getD "") = false) := by
    rintro ⟨hne, hf⟩
    rw [hparent hne] at hf
    exact absurd hf (by decide)
  constructor
  · rintro ⟨htimes, -, hrec, -⟩
    exact ⟨fun ha hc => hrec ⟨ha, hc⟩, by omega⟩
  · rintro ⟨hrec, htimes⟩
    exact ⟨by omega, hbad, fun hc => hrec hc.1 hc.2, rfl⟩

/-- When the client accepts a transaction manifest, and what it reads then. -/
theorem parseTransaction_received (h : Presentable m systemRef oprRef) {raw : RawManifest}
    (hraw : raw.object = receivedManifest m) (hd : Client.isSha256 raw.document.digest = true)
    (tx : Transaction) :
    parseTransaction raw = .ok tx ↔
      ((m.repositories.map RepositoryRef.name).Nodup ∧
        (m.recovery.authorized = true → m.recovery.constraints ≠ []) ∧ m.createdAt < m.expiresAt) ∧
        tx = clientTransaction m systemRef oprRef := by
  have hp := m.plain
  have hversion : numberField (receivedManifest m) "schemaVersion" = 1 := by
    rw [numberField, show numberFieldOK (receivedManifest m) "schemaVersion" = some ((1 : Nat) : Int) from
      numberFieldOK_nat hp rfl (by decide)]
    rfl
  have hkind : stringField (receivedManifest m) "kind" = some "resolved-transaction" := by
    rw [show stringField (receivedManifest m) "kind" = some m.kind.text from stringField_text hp rfl, h.kind]
    rfl
  have hrepos : (arrayField (receivedManifest m) "repositories").getD [] =
      m.repositories.map fun r => received r.toJson := by
    rw [show arrayField (receivedManifest m) "repositories" =
      some ((m.repositories.map RepositoryRef.toJson).map received) from arrayField_arr hp rfl,
      Option.getD_some, List.map_map]
    rfl
  have hne : m.repositories.map (fun r => received r.toJson) ≠ [] := fun he =>
    h.repositories (List.map_eq_nil_iff.mp he)
  have hcount : numberFieldOK (receivedManifest m) "packageCount" = some (m.packageCount : Int) :=
    numberFieldOK_nat hp rfl h.packageCount
  have hcohorts : validateCohortDigests (receivedFields m.changelog.members) = .ok () := by
    have ha : arrayField (receivedFields m.changelog.members) "cohortDigests" =
        some ((m.changelog.cohortDigests.map CohortDigest.toJson).map received) :=
      arrayField_arr m.changelog.plain rfl
    simp only [validateCohortDigests, ha, List.map_map]
    exact validateCohortDigests_received m.changelog.cohortDigests [] h.cohortDigests.1
      (fun _ _ => List.not_mem_nil) (fun _ h => absurd h List.not_mem_nil) h.cohortDigests.2
  have hfields := validateTransactionFields_received h hd
  have hchunks := parseChunkIndex_received fun c hc => (h.packageChunks c hc).1
  have hread := readTransaction_received h
  simp only [parseTransaction, hraw, hversion, hkind, hrepos, hne, hchunks, hcount, policySupported_received,
    approvedChangelog_received h.changelog, ne_eq, not_true_eq_false, if_false, Bool.true_eq_false]
  rw [Fallible.bind_ok]
  constructor
  · rintro ⟨rs, hrs, htx⟩
    obtain ⟨hnodup, -, rfl⟩ := (parseRepositories_received _ _ _).mp hrs
    obtain ⟨_, hidx, htx⟩ := Fallible.bind_ok.mp htx
    obtain rfl := Except.ok.inj hidx
    simp only [hcohorts, hread] at htx
    obtain ⟨⟨⟩, -, htx⟩ := Fallible.bind_ok.mp htx
    obtain ⟨⟨⟩, hval, htx⟩ := Fallible.bind_ok.mp htx
    obtain ⟨h1, h2⟩ := hfields.mp hval
    exact ⟨⟨hnodup, h1, h2⟩, (Except.ok.inj htx).symm⟩
  · rintro ⟨⟨hnodup, h1, h2⟩, rfl⟩
    refine ⟨_, (parseRepositories_received _ _ _).mpr ⟨hnodup, fun _ _ => List.not_mem_nil, rfl⟩, ?_⟩
    refine Fallible.bind_ok.mpr ⟨_, rfl, ?_⟩
    simp only [hcohorts, hread]
    refine Fallible.bind_ok.mpr ⟨(), rfl, ?_⟩
    exact Fallible.bind_ok.mpr ⟨(), hfields.mpr ⟨h1, h2⟩, rfl⟩

end

end Omapkg.Wire
