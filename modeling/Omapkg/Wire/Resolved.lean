import Mathlib.Algebra.Order.BigOperators.Group.List
import Omapkg.Wire.Transaction
/-!
# Resolved transactions, from the server to the client

A transaction manifest `buildResolvedManifest` makes of two admitted lanes is
accepted by the client, and gives each architecture its own repositories in
the signed order, exactly when the lanes name every repository once, a
recovery has constraints, and the clock did not reach the expiry meanwhile.
-/

namespace Omapkg.Wire

open Json Utf Omapkg.Server Omapkg.Client

/-! ## Acceptance -/

/-- A fetched document, as `fetchSignedAt` hands it on; parsing does not look
at the signature. -/
def rawManifest (sha256 : Bytes → Hash.Digest) (raw canonical : Bytes) (object : Object) : RawManifest where
  object := object
  document := ⟨raw, canonical, (sha256 canonical).hex⟩
  signature := []
  signatureUrl := ""

theorem rawManifest_object (sha256 : Bytes → Hash.Digest) (raw canonical : Bytes) (object : Object) :
    (rawManifest sha256 raw canonical object).object = object := rfl

theorem rawManifest_digest (sha256 : Bytes → Hash.Digest) (raw canonical : Bytes) (object : Object) :
    Client.isSha256 (rawManifest sha256 raw canonical object).document.digest = true :=
  Hash.isHexDigest_hex (sha256 canonical)

/-- The client takes the served manifest for a transaction, and gives every
architecture of it exactly its repositories, in the signed order. -/
def Accepted (sha256 : Bytes → Hash.Digest) (m : ReleaseManifest) : Prop :=
  ∃ canonical object tx,
    canonicalDocument (releaseManifestBytes m) = .ok (canonical, object) ∧
    parseTransaction (rawManifest sha256 (releaseManifestBytes m) canonical object) = .ok tx ∧
    ∀ a ∈ tx.architectures, ∃ selected, selectArchitecture a tx = .ok selected ∧
      selected.repositories = (m.repositories.filter fun r => r.architecture.text = a).map clientRepository

/-- The lanes, the pointer and the clock a call of `buildResolvedManifest` can
meet. -/
structure BuildInput.Valid (sha256 : Bytes → Hash.Digest) (i : BuildInput) : Prop where
  system : LaneRow sha256 i.origin i.system ∧ i.system.kind = .system
  opr : LaneRow sha256 i.origin i.opr ∧ i.opr.kind = .opr
  parent : IsDigest i.parent.digest ∧ i.parent.next ≤ maxSafeInteger
  prior : ∀ row ∈ i.prior, row.sequence ≤ maxSafeInteger
  clock : 0 < i.createdAt ∧ i.createdAt ≤ maxSafeInteger

section
variable {sha256 : Bytes → Hash.Digest}

theorem laneRow_id {origin : JsString} {row : CandidateRow} (h : LaneRow sha256 origin row) :
    ∀ c ∈ ascii row.releaseId, isIdChar c = true := by
  have hid := (assertReleaseId_ok h.admitted.releaseId).1
  rw [h.releaseId]
  exact isIdWord_isIdChar hid

theorem units_ne_nil {s : String} (h : s ≠ "") : units s ≠ [] := by
  intro he
  have := toText_units s
  rw [he] at this
  exact h this.symm

/-- The reference to an admitted lane is complete. -/
theorem laneRow_ref {origin : JsString} {row : CandidateRow} (h : LaneRow sha256 origin row)
    {ref : Server.ManifestRef} (hr : manifestRef origin row = .ok ref) : RefFits ref := by
  rw [manifestRef_ok (laneRow_id h)] at hr
  obtain rfl := Except.ok.inj hr
  have hseq := h.admitted.sequence
  have hurl : plainManifestUrl origin row.kind row.channel row.releaseId ≠ [] := fun he =>
    units_ne_nil (by decide) (List.append_eq_nil_iff.mp he).2
  exact
    { url := hurl
      digest := by rw [h.manifestSha256]; exact isSha256_hex _
      signatureUrl := fun he => hurl (List.append_eq_nil_iff.mp he).1
      sequence := by
        change 0 < row.sequence ∧ row.sequence < 2 ^ 63
        rw [h.sequence]
        have : maxSafeInteger < 2 ^ 63 := by decide
        omega }

theorem admitted_chunk {origin : JsString} {m : ReleaseManifest} (h : Admitted origin m) :
    ∀ c ∈ m.packageChunks, ChunkFits c ∧ c.url ≠ [] ∧ Server.isSha256 c.sha256 = true ∧ 0 < c.size ∧
      c.index < c.count := by
  intro c hc
  obtain ⟨hurl, hsha, hs1, hs2, hcount⟩ := h.packageChunkRefs c hc
  obtain ⟨-, hlen, hindex⟩ := h.packageChunks
  obtain ⟨hsum, -, htotal⟩ := h.packageCount
  have hi : c.index < m.packageChunks.length := by
    have := List.mem_map_of_mem (f := PackageChunkRef.index) hc
    rw [hindex] at this
    exact List.mem_range.mp this
  have hpc : c.packageCount ≤ (m.packageChunks.map PackageChunkRef.packageCount).sum :=
    List.single_le_sum (fun _ _ => Nat.zero_le _) _ (List.mem_map_of_mem hc)
  simp only [maxChunks, maxChunkBytes] at hlen hs2
  refine ⟨⟨by omega, by omega, by omega, by omega⟩, ?_, hsha, hs1, by omega⟩
  rw [hurl]
  exact fun he => units_ne_nil (by decide) (List.append_eq_nil_iff.mp he).2

theorem sortedSet_eq_nil {l : List JsString} : sortedSet l = [] ↔ l = [] := by
  constructor
  · intro h
    have hperm := List.perm_insertionSort KeyLE l.eraseDups
    rw [show l.eraseDups.insertionSort KeyLE = [] from h] at hperm
    have hnil : l.eraseDups = [] := hperm.nil_eq.symm
    cases l with
    | nil => rfl
    | cons a l => rw [List.eraseDups_cons] at hnil; exact absurd hnil (by simp)
  · rintro rfl; rfl

/-- A new transaction manifest has everything in place. -/
theorem fresh_presentable {i : BuildInput} (hv : BuildInput.Valid sha256 i) {m : ReleaseManifest}
    (h : buildResolvedManifest i = .ok (.fresh m)) : ∃ systemRef oprRef, Presentable m systemRef oprRef := by
  obtain ⟨target, systemRef, oprRef, htarget, hsystem, hopr, hexp, -, rfl⟩ := buildResolvedManifest_fresh h
  obtain ⟨hs, hsk⟩ := hv.system
  obtain ⟨ho, -⟩ := hv.opr
  have hsafe : maxSafeInteger < 2 ^ 63 := by decide
  have hnext := hv.parent.2
  have hclock := hv.clock
  have hscount := hs.admitted.packageCount
  have hocount := ho.admitted.packageCount
  have hsa := hs.admitted.architectures
  have hoa := ho.admitted.architectures
  refine ⟨systemRef, oprRef, ?_⟩
  exact
    { kind := rfl
      lane := rfl
      channel := by
        have hc := hs.admitted.channel
        rw [← hs.kind.1, hsk] at hc
        change i.system.manifest.channel ≠ .quarantine
        rintro he
        rw [he] at hc
        exact absurd hc (by decide)
      releaseId := by
        have htxn : ∀ rest : JsString, (units "txn-" ++ rest).take 112 ≠ [] := by
          intro rest he
          have := congrArg List.length he
          rw [List.length_take, List.length_append] at this
          have h4 : (units "txn-").length = 4 := by decide
          simp only [List.length_nil] at this
          omega
        have hbase : baseReleaseId i.system i.opr ≠ [] := by
          rw [baseReleaseId, List.append_assoc, List.append_assoc]
          exact htxn _
        change i.releaseId ≠ []
        rw [BuildInput.releaseId]
        split
        · intro he
          have := List.take_eq_nil_iff.mp he
          rcases this with h0 | h0
          · omega
          · exact hbase (List.append_eq_nil_iff.mp (List.append_eq_nil_iff.mp h0).1).1
        · exact hbase
      architectures := by
        change sortedArchitectures (i.system.manifest.architectures ++ i.opr.manifest.architectures) ≠ []
        rw [hsa, hoa]
        decide
      times := ⟨hclock.1, by change i.createdAt < _; omega, by change i.expiresAt < _; omega⟩
      sequence := ⟨Nat.succ_pos _, by change i.parent.next < _; omega⟩
      parentDigest := hv.parent.1
      parentSequence := by
        intro n hn
        have hn' : i.parent.sequence = some n := hn
        rw [Server.Parent.next, hn', Option.getD_some] at hnext
        omega
      systemManifest := rfl
      oprManifest := rfl
      systemRef := laneRow_ref hs hsystem
      oprRef := laneRow_ref ho hopr
      target := by
        rintro r hr
        have hr' : target = some r := hr
        rw [hr'] at htarget
        obtain ⟨prior, hprior, -, -, -, href⟩ := recoveryTarget_ok htarget
        have := hv.prior prior hprior
        rw [(manifestRef_sequence href).1]
        omega
      repositories := by
        obtain ⟨r, hr, -⟩ := hs.admitted.repositories.2.1
        have hmem : r ∈ i.repositories :=
          (List.mem_insertionSort _).mpr (List.mem_append_left _ hr)
        exact List.ne_nil_of_mem hmem
      packageChunks := fun c hc => (List.mem_append.mp hc).elim (admitted_chunk hs.admitted c)
        (admitted_chunk ho.admitted c)
      packageCount := by
        change i.system.manifest.packageCount + i.opr.manifest.packageCount < _
        omega
      changelog := ⟨hs.admitted.changelog.2.1, hs.admitted.changelog.2.2.2.2⟩
      cohortDigests := ⟨hs.admitted.cohortDigests.1, fun c hc => by
        obtain ⟨h1, h2, h3, h4⟩ := hs.admitted.cohortDigests.2 c hc
        exact ⟨h1, h2, by omega, h4⟩⟩ }

/-- An architecture that has a repository gets its repositories. -/
theorem selectArchitecture_client {m : ReleaseManifest} {systemRef oprRef : Server.ManifestRef} {a : Architecture}
    (ha : a ∈ m.architectures) (hr : ∃ r ∈ m.repositories, r.architecture = a) :
    ∃ selected, selectArchitecture a.text (clientTransaction m systemRef oprRef) = .ok selected ∧
      selected.repositories =
        (m.repositories.filter fun r => r.architecture.text = a.text).map clientRepository := by
  have hfilter : (m.repositories.map clientRepository).filter (fun r => r.architecture = a.text) =
      (m.repositories.filter fun r => r.architecture.text = a.text).map clientRepository := by
    rw [List.filter_map]
    rfl
  have hmem : a.text ∈ (clientTransaction m systemRef oprRef).architectures := List.mem_map_of_mem ha
  obtain ⟨r, hrm, hra⟩ := hr
  have hne : (m.repositories.map clientRepository).filter (fun r => r.architecture = a.text) ≠ [] := by
    intro he
    rw [hfilter] at he
    have : r ∈ m.repositories.filter fun r => r.architecture.text = a.text :=
      List.mem_filter.mpr ⟨hrm, by simp [hra]⟩
    rw [List.map_eq_nil_iff.mp he] at this
    exact absurd this List.not_mem_nil
  obtain ⟨selected, hsel, hrepos⟩ := selectArchitecture_ok hmem hne
  exact ⟨selected, hsel, hrepos.trans hfilter⟩

/-- The client accepts a complete transaction manifest exactly when no
repository name repeats, a recovery has constraints, and it was made before it
expires. -/
theorem presentable_accepted {m : ReleaseManifest} {systemRef oprRef : Server.ManifestRef}
    (h : Presentable m systemRef oprRef)
    (hr : ∀ a ∈ m.architectures, ∃ r ∈ m.repositories, r.architecture = a) :
    Accepted sha256 m ↔ (m.repositories.map RepositoryRef.name).Nodup ∧
      (m.recovery.authorized = true → m.recovery.constraints ≠ []) ∧ m.createdAt < m.expiresAt := by
  have hdoc := canonicalDocument_manifest m
  have hparse : ∀ canonical tx,
      parseTransaction (rawManifest sha256 (releaseManifestBytes m) canonical (receivedManifest m)) = .ok tx ↔
        ((m.repositories.map RepositoryRef.name).Nodup ∧
          (m.recovery.authorized = true → m.recovery.constraints ≠ []) ∧ m.createdAt < m.expiresAt) ∧
          tx = clientTransaction m systemRef oprRef := fun canonical tx =>
    parseTransaction_received h (rawManifest_object sha256 _ _ _) (rawManifest_digest sha256 _ _ _) tx
  constructor
  · rintro ⟨canonical, object, tx, hcanon, htx, -⟩
    rw [hdoc] at hcanon
    obtain ⟨hc, ho⟩ := Prod.mk.inj (Except.ok.inj hcanon)
    rw [← ho] at htx
    exact ((hparse canonical tx).mp htx).1
  · intro hcond
    refine ⟨_, _, _, hdoc, (hparse _ _).mpr ⟨hcond, rfl⟩, ?_⟩
    intro text ht
    obtain ⟨a, ha, rfl⟩ := List.mem_map.mp ht
    exact selectArchitecture_client ha (hr a ha)

/-- Both architectures have repositories in a new transaction. -/
theorem fresh_architectures {i : BuildInput} (hv : BuildInput.Valid sha256 i) :
    ∀ a : Architecture, ∃ r ∈ i.repositories, r.architecture = a := by
  intro a
  obtain ⟨-, ⟨r, hr, hra⟩, ⟨r', hr', hra'⟩⟩ := hv.system.1.admitted.repositories
  cases a with
  | x86_64 => exact ⟨r, (List.mem_insertionSort _).mpr (List.mem_append_left _ hr), hra⟩
  | aarch64 => exact ⟨r', (List.mem_insertionSort _).mpr (List.mem_append_left _ hr'), hra'⟩

/-- A transaction manifest made of two admitted lanes is accepted, and split by
architecture, exactly when the lanes name no repository twice, a recovery they
ask for has constraints, and the clock was before the expiry when the manifest
was stamped. -/
theorem resolved_accepted_iff {i : BuildInput} (hv : BuildInput.Valid sha256 i) {m : ReleaseManifest}
    (h : buildResolvedManifest i = .ok (.fresh m)) :
    Accepted sha256 m ↔
      ((i.system.manifest.repositories ++ i.opr.manifest.repositories).map RepositoryRef.name).Nodup ∧
      (i.recoveryRequested = true →
        i.system.manifest.recovery.constraints ++ i.opr.manifest.recovery.constraints ≠ []) ∧
      i.createdAt < min (i.expiryAt + i.lifetime) (min i.system.manifest.expiresAt i.opr.manifest.expiresAt) := by
  obtain ⟨systemRef, oprRef, hp⟩ := fresh_presentable hv h
  obtain ⟨target, s, o, -, -, -, -, -, rfl⟩ := buildResolvedManifest_fresh h
  rw [presentable_accepted hp fun a _ => fresh_architectures hv a]
  have hnames : (i.repositories.map RepositoryRef.name).Nodup ↔
      ((i.system.manifest.repositories ++ i.opr.manifest.repositories).map RepositoryRef.name).Nodup :=
    ((List.perm_insertionSort RepositoryLE _).map _).nodup_iff
  have hconstraints : i.constraints ≠ [] ↔
      i.system.manifest.recovery.constraints ++ i.opr.manifest.recovery.constraints ≠ [] :=
    not_congr sortedSet_eq_nil
  exact and_congr hnames (and_congr (imp_congr_right fun _ => hconstraints) Iff.rfl)

end

/-! ### Two architectures -/

/-- A hash for the examples. -/
def zeroHash : Bytes → Hash.Digest := fun _ => .zero

/-- A lane manifest with the repositories given. -/
def laneManifest (kind : ReleaseKind) (repositories : List (RepositoryName × Architecture)) : ReleaseManifest :=
  let id := if kind = .system then units "4.0.3" else units "opr-1"
  { separatorManifest with
    kind := kind
    lane := kind.lane
    identity := if kind = .system then ⟨some id, none⟩ else ⟨none, some id⟩
    releaseId := id
    repositories := repositories.map fun r =>
      { name := r.1
        architecture := r.2
        snapshotDigest := List.replicate 64 0x61
        dbUrl := units "https://omapkg.example/core.db"
        signatureUrl := units "https://omapkg.example/core.db.sig"
        packageBaseUrl := units "https://omapkg.example/" }
    compatibility := ⟨if kind = .system then none else some (units (zeroHash []).hex), [], none⟩
    recovery := ⟨none, none, false, none, []⟩ }

theorem laneManifest_admitted {kind : ReleaseKind} (hk : kind ≠ .resolvedTransaction)
    {repositories : List (RepositoryName × Architecture)} (hn : repositories.Nodup)
    (hx : ∃ r ∈ repositories, r.2 = .x86_64) (ha : ∃ r ∈ repositories, r.2 = .aarch64) :
    Admitted (units "https://omapkg.example") (laneManifest kind repositories) where
  kind := ⟨hk, rfl⟩
  channel := by
    dsimp only [laneManifest, separatorManifest]
    cases kind <;> first | exact absurd rfl hk | decide
  releaseId := by
    dsimp only [laneManifest]
    cases kind <;> first | exact absurd rfl hk | decide +kernel
  identity := rfl
  parent := separatorManifest_admitted.parent
  times := separatorManifest_admitted.times
  sequence := separatorManifest_admitted.sequence
  architectures := rfl
  sourceRefs := separatorManifest_admitted.sourceRefs
  repositories := by
    refine ⟨?_, ?_, ?_⟩
    · rw [laneManifest, List.map_map]
      rwa [show (fun r : RepositoryRef => (r.name, r.architecture)) ∘ _ =
        (id : RepositoryName × Architecture → _) from rfl, List.map_id]
    · obtain ⟨r, hr, h⟩ := hx
      exact ⟨_, List.mem_map_of_mem hr, h⟩
    · obtain ⟨r, hr, h⟩ := ha
      exact ⟨_, List.mem_map_of_mem hr, h⟩
  repositoryRefs := by
    intro r hr
    obtain ⟨p, -, rfl⟩ := List.mem_map.mp hr
    dsimp only
    decide +kernel
  packageChunks := separatorManifest_admitted.packageChunks
  packageChunkRefs := separatorManifest_admitted.packageChunkRefs
  packageCount := separatorManifest_admitted.packageCount
  compatibility := by
    dsimp only [laneManifest]
    cases kind <;> first | exact absurd rfl hk | decide +kernel
  references := ⟨rfl, rfl⟩
  changelog := separatorManifest_admitted.changelog
  cohortDigests := separatorManifest_admitted.cohortDigests
  recovery := ⟨rfl, fun h => absurd h Bool.false_ne_true, fun _ h => absurd h List.not_mem_nil⟩

def laneRow (kind : ReleaseKind) (repositories : List (RepositoryName × Architecture)) : CandidateRow where
  id := units "row"
  kind := kind
  lane := kind.lane
  channel := .stable
  releaseId := (laneManifest kind repositories).releaseId
  sequence := 1
  parentDigest := none
  parentSequence := none
  manifest := laneManifest kind repositories
  manifestSha256 := units (zeroHash []).hex
  manifestKey := units "key"
  manifestSize := 1
  signatureKey := some (units "signature")
  signatureSha256 := none
  signatureIntentId := none
  changelogKey := units "changelog"
  changelogSha256 := List.replicate 64 0x64
  status := .active
  createdBy := units "github:1"
  createdAt := 1000
  activatedAt := some 1001

/-- A first transaction of lanes with the repositories given. -/
def firstInput (system opr : List (RepositoryName × Architecture)) : BuildInput where
  origin := units "https://omapkg.example"
  lifetime := 3600
  collate := fun _ _ => true
  system := laneRow .system system
  opr := laneRow .opr opr
  parent := ⟨none, none⟩
  existing := none
  prior := none
  reusedAt := 1500
  expiryAt := 1500
  checkedAt := 1500
  createdAt := 1500

theorem firstInput_valid (system opr : List (RepositoryName × Architecture)) (hs : system.Nodup) (ho : opr.Nodup)
    (hx : ∃ r ∈ system, r.2 = .x86_64) (ha : ∃ r ∈ system, r.2 = .aarch64)
    (hx' : ∃ r ∈ opr, r.2 = .x86_64) (ha' : ∃ r ∈ opr, r.2 = .aarch64) :
    BuildInput.Valid zeroHash (firstInput system opr) where
  system := ⟨⟨laneManifest_admitted (by decide) hs hx ha, ⟨rfl, rfl⟩, rfl, rfl, rfl, rfl⟩, rfl⟩
  opr := ⟨⟨laneManifest_admitted (by decide) ho hx' ha', ⟨rfl, rfl⟩, rfl, rfl, rfl, rfl⟩, rfl⟩
  parent := ⟨fun _ h => (nomatch h), by dsimp only [firstInput]; decide⟩
  prior := fun _ h => (nomatch h)
  clock := by dsimp only [firstInput]; decide

/-- A call with one name for each repository makes a transaction. -/
theorem firstInput_fresh {i : BuildInput}
    (h : (match buildResolvedManifest i with | .ok (.fresh _) => true | _ => false) = true) :
    ∃ m, buildResolvedManifest i = .ok (.fresh m) := by
  split at h
  · rename_i m hm
    exact ⟨m, hm⟩
  · exact absurd h Bool.false_ne_true

/-- Lanes that name each repository for one architecture only are accepted. -/
theorem resolved_accepted_apart :
    ∃ i m, BuildInput.Valid zeroHash i ∧ buildResolvedManifest i = .ok (.fresh m) ∧ Accepted zeroHash m := by
  have hv := firstInput_valid [(.core, .x86_64), (.extra, .aarch64)] [(.omarchy, .x86_64), (.omapkg, .aarch64)]
    (by decide) (by decide) (by decide) (by decide) (by decide) (by decide)
  obtain ⟨m, hm⟩ := firstInput_fresh (i := firstInput [(.core, .x86_64), (.extra, .aarch64)]
    [(.omarchy, .x86_64), (.omapkg, .aarch64)]) (by decide +kernel)
  exact ⟨_, m, hv, hm, (resolved_accepted_iff hv hm).mpr ⟨by decide, by decide, by decide⟩⟩

/-- Lanes with the repositories every release is prepared with, a name for
each architecture, make a transaction the client refuses. -/
theorem resolved_pairs_refused :
    ∃ m, BuildInput.Valid zeroHash (firstInput (pairs .system) (pairs .opr)) ∧
      buildResolvedManifest (firstInput (pairs .system) (pairs .opr)) = .ok (.fresh m) ∧ ¬Accepted zeroHash m := by
  have hv := firstInput_valid (pairs .system) (pairs .opr) (by decide) (by decide) (by decide) (by decide)
    (by decide) (by decide)
  obtain ⟨m, hm⟩ := firstInput_fresh (i := firstInput (pairs .system) (pairs .opr)) (by decide +kernel)
  refine ⟨m, hv, hm, fun h => ?_⟩
  obtain ⟨systemRef, oprRef, hp⟩ := fresh_presentable hv hm
  obtain ⟨target, s, o, -, -, -, -, -, rfl⟩ := buildResolvedManifest_fresh hm
  have hnames : ((firstInput (pairs .system) (pairs .opr)).repositories.map RepositoryRef.name).Nodup :=
    ((presentable_accepted hp fun a _ => fresh_architectures hv a).mp h).1
  exact absurd hnames (by decide +kernel)

end Omapkg.Wire
