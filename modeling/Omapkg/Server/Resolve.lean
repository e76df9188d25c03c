import Omapkg.Server.Urls
/-!
# Resolving a transaction

The stored rows of releases, what preparing and finalising one makes sure of
its manifest, and `buildResolvedManifest`, which joins a system and an OPR
manifest into one transaction. What the function reads of the database, the
clock and the configuration is its input.
-/

namespace Omapkg.Server

open Utf Json

/-! ## Rows -/

inductive Status where
  | candidate | signed | active | superseded | held
  deriving DecidableEq, Repr

/-- A row of `distribution_release_candidates`; `manifest` is what
`manifest_json` parses to. -/
structure CandidateRow where
  id : JsString
  kind : ReleaseKind
  lane : Lane
  channel : Channel
  releaseId : JsString
  sequence : Nat
  parentDigest : Option JsString
  parentSequence : Option Nat
  manifest : ReleaseManifest
  manifestSha256 : JsString
  manifestKey : JsString
  manifestSize : Nat
  signatureKey : Option JsString
  signatureSha256 : Option JsString
  signatureIntentId : Option JsString
  changelogKey : JsString
  changelogSha256 : JsString
  status : Status
  createdBy : JsString
  createdAt : Nat
  activatedAt : Option Nat
  deriving DecidableEq

/-! ## Lane manifests -/

def isHttps (s : JsString) : Bool := (units "https://").isPrefixOf s

/-- A value that `text` returns. -/
def IsText (maximum : Nat) (s : JsString) : Prop := text s "" maximum = .ok s

instance (maximum : Nat) : DecidablePred (IsText maximum) := fun _ => inferInstanceAs (Decidable (_ = _))

/-- A value that `safeUrl` returns is a text and starts as one does. -/
def IsUrl (s : JsString) : Prop := IsText 2048 s ∧ isHttps s = true

instance : DecidablePred IsUrl := fun _ => inferInstanceAs (Decidable (_ ∧ _))

/-- `/^[A-Za-z0-9][A-Za-z0-9_-]{0,127}$/`. -/
def isCohortId (s : JsString) : Bool := isIdWord 127 (ascii s) && (ascii s).all (· ≠ '.')

def IsDigest (s : Option JsString) : Prop := ∀ d ∈ s, isSha256 d = true

instance : DecidablePred IsDigest
  | none => isTrue fun _ h => nomatch h
  | some d => decidable_of_iff (isSha256 d = true) (by simp [IsDigest])

/-- What `prepareDistributionRelease` and `finalizeManifest` make sure of the
manifest of a system or OPR release. -/
structure Admitted (origin : JsString) (m : ReleaseManifest) : Prop where
  kind : m.kind ≠ .resolvedTransaction ∧ m.lane = m.kind.lane
  channel : m.channel ∈ m.kind.channels
  releaseId : assertReleaseId m.kind m.releaseId = .ok m.releaseId
  identity : m.identity = if m.kind = .system then ⟨some m.releaseId, none⟩ else ⟨none, some m.releaseId⟩
  parent : IsDigest m.parent.digest
  times : 0 < m.createdAt ∧ m.createdAt < m.expiresAt ∧ m.expiresAt ≤ maxSafeInteger
  sequence : m.sequence = m.parent.sequence.getD 0 + 1 ∧ m.sequence ≤ maxSafeInteger
  architectures : m.architectures = [.aarch64, .x86_64]
  sourceRefs : ∀ r ∈ m.sourceRefs, IsText 256 r.name ∧ IsText 128 r.ref ∧ isSha256 r.digest = true
  repositories : (m.repositories.map fun r => (r.name, r.architecture)).Nodup ∧
    (∃ r ∈ m.repositories, r.architecture = .x86_64) ∧ ∃ r ∈ m.repositories, r.architecture = .aarch64
  repositoryRefs : ∀ r ∈ m.repositories,
    isSha256 r.snapshotDigest = true ∧ IsUrl r.dbUrl ∧ IsUrl r.signatureUrl ∧ IsUrl r.packageBaseUrl
  packageChunks : m.packageChunks ≠ [] ∧ m.packageChunks.length ≤ maxChunks ∧
    m.packageChunks.map PackageChunkRef.index = List.range m.packageChunks.length
  packageChunkRefs : ∀ c ∈ m.packageChunks,
    c.url = publicReleaseObjectUrl origin "chunks" c.sha256 ∧ isSha256 c.sha256 = true ∧
      1 ≤ c.size ∧ c.size ≤ maxChunkBytes ∧ c.count = m.packageChunks.length
  packageCount : (m.packageChunks.map PackageChunkRef.packageCount).sum = m.packageCount ∧
    1 ≤ m.packageCount ∧ m.packageCount ≤ 10000000
  compatibility : IsDigest m.compatibility.systemManifestDigest ∧ IsDigest m.compatibility.oprManifestDigest ∧
    ∀ d ∈ m.compatibility.systemSnapshotDigests, isSha256 d = true
  references : m.systemManifest = none ∧ m.oprManifest = none
  changelog : m.changelog.url = publicReleaseObjectUrl origin "changelogs" m.changelog.sha256 ∧
    isSha256 m.changelog.sha256 = true ∧ 1 ≤ m.changelog.size ∧ m.changelog.size ≤ maxChunkBytes ∧
    m.changelog.approvedBy ≠ []
  cohortDigests : (m.changelog.cohortDigests.map CohortDigest.cohortId).Nodup ∧
    ∀ c ∈ m.changelog.cohortDigests, isCohortId c.cohortId = true ∧ 1 ≤ c.revision ∧
      c.revision ≤ maxSafeInteger ∧ isSha256 c.digest = true
  recovery : m.recovery.target = none ∧ (m.recovery.authorized = true → ∃ r, m.recovery.reason = some r ∧
    IsText 2000 r) ∧ ∀ c ∈ m.recovery.constraints, IsText maxText c

/-- The row a lane manifest is stored in. -/
structure LaneRow (sha256 : Bytes → Hash.Digest) (origin : JsString) (row : CandidateRow) : Prop where
  admitted : Admitted origin row.manifest
  kind : row.kind = row.manifest.kind ∧ row.lane = row.manifest.lane
  channel : row.channel = row.manifest.channel
  releaseId : row.releaseId = row.manifest.releaseId
  sequence : row.sequence = row.manifest.sequence
  manifestSha256 : row.manifestSha256 = releaseManifestDigest sha256 row.manifest

/-- `pairs` of `owned-repository.ts`: the repositories a lane is prepared
with. -/
def pairs (lane : Lane) : List (RepositoryName × Architecture) :=
  let names : List RepositoryName := if lane = .system then [.core, .extra, .multilib, .omarchy] else [.omapkg]
  names.flatMap fun name =>
    ([.x86_64, .aarch64].filter fun a => name ≠ .multilib || a = .x86_64).map fun a => (name, a)

/-! ## Sorting -/

/-- `RELEASE_REPOSITORIES.indexOf`. -/
def RepositoryName.index : RepositoryName → Nat
  | .core => 0
  | .extra => 1
  | .multilib => 2
  | .omarchy => 3
  | .omapkg => 4

/-- The place of an architecture's name among the others. -/
def Architecture.rank : Architecture → Nat
  | .aarch64 => 0
  | .x86_64 => 1

/-- `repositorySort`. -/
def RepositoryLE (a b : RepositoryRef) : Prop :=
  a.name.index < b.name.index ∨ (a.name.index = b.name.index ∧ a.architecture.rank ≤ b.architecture.rank)

instance : DecidableRel RepositoryLE := fun _ _ => inferInstanceAs (Decidable (_ ∨ _))

/-- `[...new Set(texts)].sort()`. -/
def sortedSet (texts : List JsString) : List JsString := texts.eraseDups.insertionSort KeyLE

/-- `[...new Set(architectures)].sort()`. -/
def sortedArchitectures (as : List Architecture) : List Architecture :=
  as.eraseDups.insertionSort fun a b => a.rank ≤ b.rank

/-! ## References -/

/-- An exception that is no `PolicyError`. -/
def uriMalformed : PolicyError := ⟨500, "URI malformed"⟩

def manifestRef (origin : JsString) (row : CandidateRow) : Except PolicyError ManifestRef :=
  match publicManifestUrl origin row.kind row.channel row.releaseId,
    publicManifestSignatureUrl origin row.kind row.channel row.releaseId with
  | some url, some signatureUrl =>
    .ok { url := url, digest := row.manifestSha256, signatureUrl := signatureUrl, channel := row.channel,
          sequence := row.sequence, version := row.manifest.identity.version,
          generation := row.manifest.identity.generation }
  | _, _ => .error uriMalformed

/-! ## buildResolvedManifest -/

/-- What one call of `buildResolvedManifest` reads: the lane rows, the pointer
value to succeed, the latest transaction row of the same base id (`existing`),
the manifest `parent` names (`prior`), and the clock each time it is asked. -/
structure BuildInput where
  origin : JsString
  lifetime : Nat
  collate : JsString → JsString → Bool
  system : CandidateRow
  opr : CandidateRow
  parent : Parent
  existing : Option CandidateRow
  prior : Option CandidateRow
  reusedAt : Nat
  expiryAt : Nat
  checkedAt : Nat
  createdAt : Nat

/-- A string that is neither `null` nor empty. -/
def truthy (s : Option JsString) : Bool := s ≠ none && s ≠ some []

def configuredLifetime (name : String) (value : Nat) : Except PolicyError Nat :=
  if value > maxSafeInteger ∨ value < 60 * 60 then reject s!"{name} must be at least one hour." 503 else .ok value

def baseReleaseId (system opr : CandidateRow) : JsString :=
  (units "txn-" ++ system.releaseId ++ units "-" ++ opr.releaseId).take 112

/-- The sequence after a parent's. -/
def Parent.next (parent : Parent) : Nat := parent.sequence.getD 0 + 1

/-- Whether a stored transaction row stands for the call's result. -/
def reusable (row : CandidateRow) (parent : Parent) (now : Nat) : Bool :=
  row.manifest.expiresAt > now && row.manifest.parent = parent && row.manifest.sequence = parent.next

/-- The checks of the two lanes against each other. -/
def checkPair (system opr : CandidateRow) : Except PolicyError Unit :=
  let systemManifest := system.manifest
  let oprManifest := opr.manifest
  if systemManifest.channel = .stable ∧ oprManifest.channel ≠ .stable then
    reject "Stable system transactions require a stable OPR snapshot." 409
  else if system.status ≠ .active ∧ truthy systemManifest.compatibility.oprManifestDigest = true ∧
      systemManifest.compatibility.oprManifestDigest ≠ some opr.manifestSha256 then
    reject "System candidate is incompatible with active OPR snapshot." 409
  else if truthy oprManifest.compatibility.systemManifestDigest = true ∧
      oprManifest.compatibility.systemManifestDigest ≠ some system.manifestSha256 then
    reject "OPR candidate is incompatible with active system snapshot." 409
  else if truthy systemManifest.compatibility.oprManifestDigest = false ∧
      truthy oprManifest.compatibility.systemManifestDigest = false then
    reject "Resolved transaction needs an explicit system or OPR compatibility binding." 409
  else .ok ()

/-- Whether a lane asks for a recovery. -/
def BuildInput.recoveryRequested (i : BuildInput) : Bool :=
  i.system.manifest.recovery.authorized || i.opr.manifest.recovery.authorized

def recoveryTarget (i : BuildInput) : Except PolicyError (Option ManifestRef) :=
  if i.recoveryRequested = false then .ok none
  else if truthy i.parent.digest = false then
    reject "Authorized recovery requires an existing resolved transaction target." 409
  else
    match i.prior with
    | none => reject "Authorized recovery target is unavailable." 409
    | some prior =>
      if prior.kind ≠ .resolvedTransaction then reject "Authorized recovery target is unavailable." 409
      else if prior.manifest.systemManifest.map ManifestRef.digest ≠ some i.system.manifestSha256 ∨
          prior.manifest.oprManifest.map ManifestRef.digest ≠ some i.opr.manifestSha256 then
        reject "Recovery target does not match restored system and OPR selections." 409
      else
        match manifestRef i.origin prior with
        | .ok target => .ok (some target)
        | .error e => .error e

/-- The release id of a new transaction: the base id, made another by its
sequence where the base id is taken. -/
def BuildInput.releaseId (i : BuildInput) : JsString :=
  if i.existing.isSome then
    (baseReleaseId i.system i.opr ++ units "-s" ++ units (Nat.repr i.parent.next)).take 120
  else baseReleaseId i.system i.opr

/-- The earliest of the transaction's own expiry and those of its lanes. -/
def BuildInput.expiresAt (i : BuildInput) : Nat :=
  min (i.expiryAt + i.lifetime) (min i.system.manifest.expiresAt i.opr.manifest.expiresAt)

/-- The repositories of a new transaction, in the order they are signed. -/
def BuildInput.repositories (i : BuildInput) : List RepositoryRef :=
  (i.system.manifest.repositories ++ i.opr.manifest.repositories).insertionSort RepositoryLE

/-- The constraints both lanes put on a recovery. -/
def BuildInput.constraints (i : BuildInput) : List JsString :=
  sortedSet (i.system.manifest.recovery.constraints ++ i.opr.manifest.recovery.constraints)

/-- A new transaction's manifest, once its references are known. -/
def BuildInput.manifest (i : BuildInput) (target : Option ManifestRef) (systemRef oprRef : ManifestRef) :
    ReleaseManifest :=
  let s := i.system.manifest
  let o := i.opr.manifest
  { kind := .resolvedTransaction
    lane := .transaction
    channel := s.channel
    identity := ⟨s.identity.version, o.identity.generation⟩
    releaseId := i.releaseId
    parent := i.parent
    createdAt := i.createdAt
    expiresAt := i.expiresAt
    sequence := i.parent.next
    architectures := sortedArchitectures (s.architectures ++ o.architectures)
    sourceRefs := (s.sourceRefs ++ o.sourceRefs).insertionSort fun a b => i.collate a.name b.name = true
    repositories := i.repositories
    packageChunks := s.packageChunks ++ o.packageChunks
    packageCount := s.packageCount + o.packageCount
    compatibility :=
      { systemManifestDigest := some i.system.manifestSha256
        systemSnapshotDigests := s.compatibility.systemSnapshotDigests
        oprManifestDigest := some i.opr.manifestSha256 }
    systemManifest := some systemRef
    oprManifest := some oprRef
    changelog := s.changelog
    approvals :=
      { releaseTeam := sortedSet (s.approvals.releaseTeam ++ o.approvals.releaseTeam)
        baseOwners := sortedSet (s.approvals.baseOwners ++ o.approvals.baseOwners) }
    recovery :=
      { fromDigest := i.parent.digest
        target := target
        authorized := i.recoveryRequested
        reason := if i.recoveryRequested then s.recovery.reason.or o.recovery.reason else none
        constraints := i.constraints } }

/-- A transaction is a stored row or a new manifest to store. -/
inductive Resolved where
  | reused (row : CandidateRow)
  | fresh (manifest : ReleaseManifest)

def buildResolvedManifest (i : BuildInput) : Except PolicyError Resolved := do
  checkPair i.system i.opr
  match i.existing.filter fun row => reusable row i.parent i.reusedAt with
  | some row => .ok (.reused row)
  | none =>
    let target ← recoveryTarget i
    let _ ← configuredLifetime "DISTRIBUTION_TRANSACTION_EXPIRY_SECONDS" i.lifetime
    if i.expiresAt > maxSafeInteger ∨ i.expiresAt ≤ i.checkedAt then
      reject "Resolved transaction inputs are expired." 409
    else
      let systemRef ← manifestRef i.origin i.system
      let oprRef ← manifestRef i.origin i.opr
      .ok (.fresh (i.manifest target systemRef oprRef))

/-- What a call that makes a new manifest makes. -/
theorem buildResolvedManifest_fresh {i : BuildInput} {m : ReleaseManifest}
    (h : buildResolvedManifest i = .ok (.fresh m)) :
    ∃ target systemRef oprRef, recoveryTarget i = .ok target ∧ manifestRef i.origin i.system = .ok systemRef ∧
      manifestRef i.origin i.opr = .ok oprRef ∧ i.expiresAt ≤ maxSafeInteger ∧
      checkPair i.system i.opr = .ok () ∧ m = i.manifest target systemRef oprRef := by
  obtain ⟨⟨⟩, hpair, h⟩ := Fallible.bind_ok.mp h
  split at h
  · exact absurd (Except.ok.inj h) (by simp)
  · obtain ⟨target, htarget, h⟩ := Fallible.bind_ok.mp h
    obtain ⟨-, -, h⟩ := Fallible.bind_ok.mp h
    obtain ⟨hexp, h⟩ := Fallible.guard_ok.mp h
    obtain ⟨systemRef, hsystem, h⟩ := Fallible.bind_ok.mp h
    obtain ⟨oprRef, hopr, h⟩ := Fallible.bind_ok.mp h
    have hm : i.manifest target systemRef oprRef = m := Resolved.fresh.inj (Except.ok.inj h)
    exact ⟨target, systemRef, oprRef, htarget, hsystem, hopr, by omega, hpair, hm.symm⟩

/-- The reference to a row whose release id is admitted. -/
theorem manifestRef_ok {origin : JsString} {row : CandidateRow}
    (h : ∀ c ∈ ascii row.releaseId, isIdChar c = true) :
    manifestRef origin row = .ok
      { url := plainManifestUrl origin row.kind row.channel row.releaseId
        digest := row.manifestSha256
        signatureUrl := plainManifestUrl origin row.kind row.channel row.releaseId ++ units ".sig"
        channel := row.channel
        sequence := row.sequence
        version := row.manifest.identity.version
        generation := row.manifest.identity.generation } := by
  rw [manifestRef, publicManifestUrl_id h, publicManifestSignatureUrl_id h]

theorem manifestRef_sequence {origin : JsString} {row : CandidateRow} {ref : ManifestRef}
    (h : manifestRef origin row = .ok ref) : ref.sequence = row.sequence ∧ ref.digest = row.manifestSha256 := by
  unfold manifestRef at h
  split at h
  · obtain rfl := Except.ok.inj h
    exact ⟨rfl, rfl⟩
  · exact absurd h (by simp [uriMalformed])

/-- A recovery goes back to the transaction the new one succeeds. -/
theorem recoveryTarget_ok {i : BuildInput} {target : ManifestRef} (h : recoveryTarget i = .ok (some target)) :
    ∃ prior, i.prior = some prior ∧ prior.kind = .resolvedTransaction ∧
      prior.manifest.systemManifest.map ManifestRef.digest = some i.system.manifestSha256 ∧
      prior.manifest.oprManifest.map ManifestRef.digest = some i.opr.manifestSha256 ∧
      manifestRef i.origin prior = .ok target := by
  unfold recoveryTarget at h
  split_ifs at h
  · exact absurd (Except.ok.inj h) (by simp)
  · exact absurd h (by simp [reject])
  · split at h
    · exact absurd h (by simp [reject])
    · rename_i prior hprior
      obtain ⟨hkind, h⟩ := Fallible.guard_ok.mp h
      obtain ⟨hrefs, h⟩ := Fallible.guard_ok.mp h
      obtain ⟨hs, ho⟩ := not_or.mp hrefs
      split at h
      · rename_i ref hr
        obtain rfl := Option.some.inj (Except.ok.inj h)
        exact ⟨prior, hprior, not_not.mp hkind, not_not.mp hs, not_not.mp ho, hr⟩
      · exact absurd h (by simp)

end Omapkg.Server
