import Mathlib.Algebra.BigOperators.Group.List.Lemmas
import Omapkg.Server.OwnedMerge
/-!
# The packages of a release

Whether every package of a release is in one of its databases. A package of any
architecture goes to both targets, and `multilib` has a database for x86_64 only.
-/

namespace Omapkg.Server.Owned

open Prog

/-! ## Counting -/

/-- The repository a package belongs to. -/
def PackageRecord.pair (record : PackageRecord) : Pair := ⟨record.collection, record.targetArchitecture⟩

theorem pairs_nodup (lane : OwnedLane) : (pairs lane).Nodup := by
  cases lane <;> decide

theorem pairRecords_eq (records : List ArtifactRow) (pair : Pair) :
    pairRecords records pair = records.filter fun record => record.pair = pair := by
  unfold pairRecords
  refine List.filter_congr fun record _ => ?_
  cases pair
  simp [PackageRecord.pair, Pair.mk.injEq]

/-- Each pair is counted once, so the counts add up. -/
theorem sum_counts {α β : Type} [DecidableEq β] (f : α → β) {pairs : List β} (hnodup : pairs.Nodup) {records : List α}
    (hall : ∀ record ∈ records, f record ∈ pairs) :
    (pairs.map fun pair => (records.filter fun record => f record = pair).length).sum = records.length := by
  induction records with
  | nil => simp
  | cons record rest ih =>
    obtain ⟨hrecord, hrest⟩ := List.forall_mem_cons.mp hall
    have hone : (pairs.map fun pair => if f record = pair then 1 else 0).sum = 1 := by
      rw [List.sum_map_eq_nsmul_single (f record) _ fun pair hne _ => if_neg hne.symm, if_pos rfl,
        List.count_eq_one_of_mem hnodup hrecord, one_nsmul]
    have hsplit (pair : β) : ((record :: rest).filter fun record => f record = pair).length =
        (if f record = pair then 1 else 0) + (rest.filter fun record => f record = pair).length := by
      rw [List.filter_cons]
      by_cases h : f record = pair
      · simp [h, Nat.add_comm]
      · simp [h]
    rw [List.map_congr_left fun pair _ => hsplit pair, List.sum_map_add, hone, ih hrest, List.length_cons, Nat.add_comm]

/-! ## What is stored -/

theorem persistArtifact_pair {d : Draw} {record : PackageRecord} {row : ArtifactRow} {s t : RepoState}
    (h : (persistArtifact d record).run s = (.ok row, t)) : row.pair = record.pair := by
  cases hfound : findArtifact record.targetArchitecture record.artifactFilename s with
  | none =>
    rw [persistArtifact_new hfound] at h
    cases h
    rfl
  | some a =>
    rw [persistArtifact_found hfound] at h
    split_ifs at h with hsame
    · cases h
    obtain rfl : a.toArtifactRow = row := Except.ok.inj (Prod.mk.inj h).1
    have htarget : a.targetArchitecture = record.targetArchitecture := by
      have := List.find?_some hfound
      simp only [Bool.and_eq_true, decide_eq_true_eq] at this
      exact this.1
    have hcollection : a.collection = record.collection := by
      by_contra hne
      exact hsame (.inr (.inr (.inr (.inl hne))))
    rw [PackageRecord.pair, PackageRecord.pair, htarget, hcollection]

theorem persistArtifacts_pairs {ω : RepoDraws} {k : Nat} {records : List PackageRecord} {rows : List ArtifactRow}
    {s t : RepoState} (h : (persistArtifacts ω k records).run s = (.ok rows, t)) :
    rows.map (fun row => row.pair) = records.map PackageRecord.pair := by
  induction records generalizing k s rows with
  | nil =>
    cases h
    rfl
  | cons record rest ih =>
    obtain ⟨row, s₁, hfirst, h⟩ := run_bind_ok.mp h
    obtain ⟨rows', s₂, hrest, h⟩ := run_bind_ok.mp h
    cases h
    rw [List.map_cons, List.map_cons, persistArtifact_pair hfirst, ih hrest]

theorem storeSnapshot_count {env : RepositoryEnv} {d : Draw} {input : PrepareInput} {pair : Pair}
    {records : List ArtifactRow} {parent : Option SnapshotRow} {anchor : PackageRecord} {row : SnapshotRow} {s t : RepoState}
    (h : (storeSnapshot env d input pair records parent anchor).run s = (.ok row, t)) :
    row.packageCount = (pairRecords records pair).length := by
  obtain ⟨stored, s₁, -, h⟩ := run_bind_ok.mp h
  obtain ⟨_, s₂, -, h⟩ := run_bind_ok.mp h
  obtain ⟨_, s₃, -, h⟩ := run_bind_ok.mp h
  cases h
  rfl

theorem storeSnapshots_counts {env : RepositoryEnv} {ω : RepoDraws} {input : PrepareInput} {records : List ArtifactRow}
    {parents : List SnapshotRow} {anchor : PackageRecord} {k : Nat} {pairs : List Pair} {rows : List SnapshotRow}
    {s t : RepoState} (h : (storeSnapshots env ω input records parents anchor k pairs).run s = (.ok rows, t)) :
    rows.map (·.packageCount) = pairs.map fun pair => (pairRecords records pair).length := by
  induction pairs generalizing k s rows with
  | nil =>
    cases h
    rfl
  | cons pair rest ih =>
    obtain ⟨row, s₁, hfirst, h⟩ := run_bind_ok.mp h
    obtain ⟨rows', s₂, hrest, h⟩ := run_bind_ok.mp h
    cases h
    rw [List.map_cons, List.map_cons, storeSnapshot_count hfirst, ih hrest]

theorem runEach_universes {packages : List UniversePackage} {s t : RepoState}
    (h : (runEach insertUniversePackage packages).run s = (.ok (), t)) : t.universes = s.universes := by
  induction packages generalizing s with
  | nil =>
    cases h
    rfl
  | cons package rest ih =>
    obtain ⟨_, s₁, hfirst, h⟩ := run_bind_ok.mp h
    obtain ⟨n, hinsert⟩ := runOne_run hfirst
    rw [ih h]
    cases hinsert
    rfl

theorem persistUniverse_counts {env : RepositoryEnv} {d : Draw} {input : PrepareInput} {records : List ArtifactRow}
    {row : UniverseRow} {refs : List PackageRef} {s t : RepoState}
    (h : (persistUniverse env d input records).run s = (.ok (row, refs), t)) :
    refs.length = records.length ∧ row.packageCount = records.length ∧ row ∈ t.universes := by
  unfold persistUniverse at h
  simp only at h
  split at h
  · obtain ⟨_, s₁, hfirst, h⟩ := run_bind_ok.mp h
    obtain ⟨n, hinsert⟩ := runOne_run hfirst
    obtain ⟨_, s₂, hpackages, h⟩ := run_bind_ok.mp h
    cases h
    have hkept : t.universes = s₁.universes := runEach_universes hpackages
    obtain rfl := insertUniverse_ok hinsert
    refine ⟨by rw [List.length_map, List.length_insertionSort], List.length_insertionSort _ _, ?_⟩
    rw [hkept]
    exact List.mem_append_right _ (List.mem_singleton_self _)
  · cases h

/-- Packing keeps the packages and their order. -/
theorem packChunks_flatten {done : List (List PackageRef)} {current rest : List PackageRef} {chunks : List (List PackageRef)}
    (h : packChunks done current rest = .ok chunks) : chunks.flatten = done.flatten ++ current ++ rest := by
  induction rest generalizing done current with
  | nil =>
    unfold packChunks at h
    cases h
    split
    · next hcurrent => simp [hcurrent]
    · simp
  | cons item rest ih =>
    unfold packChunks at h
    extract_lets full done' at h
    obtain ⟨-, h⟩ := Fallible.guard_ok.mp h
    obtain ⟨-, h⟩ := Fallible.guard_ok.mp h
    rw [ih h]
    by_cases hfull : full
    · simp [done', hfull]
    · simp [done', hfull]

theorem persistChunk_count {env : RepositoryEnv} {d : Draw} {input : PrepareInput} {index count : Nat}
    {packages : List PackageRef} {ref : ChunkRef} {s t : RepoState}
    (h : (persistChunk env d input index count packages).run s = (.ok ref, t)) : ref.packageCount = packages.length := by
  unfold persistChunk at h
  simp only at h
  split at h
  · cases h
  · obtain ⟨_, s₁, -, h⟩ := run_bind_ok.mp h
    obtain ⟨_, s₂, -, h⟩ := run_bind_ok.mp h
    cases h
    rfl

theorem storeChunks_counts {env : RepositoryEnv} {ω : RepoDraws} {input : PrepareInput} {count index : Nat}
    {chunks : List (List PackageRef)} {refs : List ChunkRef} {s t : RepoState}
    (h : (storeChunks env ω input count index chunks).run s = (.ok refs, t)) :
    refs.map (·.packageCount) = chunks.map List.length := by
  induction chunks generalizing index s refs with
  | nil =>
    cases h
    rfl
  | cons packages rest ih =>
    obtain ⟨ref, s₁, hfirst, h⟩ := run_bind_ok.mp h
    obtain ⟨refs', s₂, hrest, h⟩ := run_bind_ok.mp h
    cases h
    rw [List.map_cons, List.map_cons, persistChunk_count hfirst, ih hrest]

theorem persistChunks_counts {env : RepositoryEnv} {ω : RepoDraws} {input : PrepareInput} {refs : List PackageRef}
    {chunks : List ChunkRef} {s t : RepoState} (h : (persistChunks env ω input refs).run s = (.ok chunks, t)) :
    (chunks.map (·.packageCount)).sum = refs.length := by
  unfold persistChunks at h
  split at h
  · cases h
  · obtain ⟨packed, hpack, h⟩ := run_ofExcept_bind_ok.mp h
    rw [storeChunks_counts h, ← List.length_flatten, packChunks_flatten hpack]
    simp

/-- The counts of a release's databases, universe and chunks. -/
structure Counted (lane : OwnedLane) (merged : List PackageRecord) (p : Preparation) (t : RepoState) : Prop where
  snapshots : (p.snapshots.map (·.packageCount)) =
    (pairs lane).map fun pair => (merged.filter fun record => record.pair = pair).length
  total : p.packageCount = merged.length
  row : ∃ row ∈ t.universes, row.id = p.universeId ∧ row.packageCount = merged.length
  chunks : (p.packageChunks.map (·.packageCount)).sum = merged.length

theorem length_filter_map {α β γ : Type} {f : α → β} {g : γ → β} {xs : List α} {ys : List γ} (h : xs.map f = ys.map g)
    (p : β → Bool) : (xs.filter fun x => p (f x)).length = (ys.filter fun y => p (g y)).length := by
  have := congrArg (fun l => (l.filter p).length) h
  simpa [List.filter_map, Function.comp_def] using this

theorem storePreparation_counted {env : RepositoryEnv} {ω : RepoDraws} {input : PrepareInput}
    {current merged : List PackageRecord} {parents : List SnapshotRow} {p : Preparation} {s t : RepoState}
    (h : (storePreparation env ω input current merged parents).run s = (.ok p, t)) : Counted input.lane merged p t := by
  obtain ⟨records, s₁, hrecords, h⟩ := run_bind_ok.mp h
  have hpairs := persistArtifacts_pairs hrecords
  have hlength : records.length = merged.length := by
    simpa using congrArg List.length hpairs
  cases hanchor : current.head? <|> records.head?.map (·.toPackageRecord) with
  | none =>
    rw [hanchor] at h
    cases h
  | some anchor =>
    rw [hanchor] at h
    obtain ⟨snapshots, s₂, hsnapshots, h⟩ := run_bind_ok.mp h
    obtain ⟨⟨row, refs⟩, s₃, huniverse, h⟩ := run_bind_ok.mp h
    obtain ⟨chunks, s₄, hchunks, h⟩ := run_bind_ok.mp h
    cases h
    obtain ⟨hrefs, hrow, hmem⟩ := persistUniverse_counts huniverse
    have hkept := (persistChunks_moves ω input refs _ _ (stops_end hchunks)).universes
    refine ⟨?_, hrefs.trans hlength, ⟨row, by rwa [hkept], rfl, hrow.trans hlength⟩,
      (persistChunks_counts hchunks).trans (hrefs.trans hlength)⟩
    rw [List.map_map]
    refine (storeSnapshots_counts hsnapshots).trans (List.map_congr_left fun pair _ => ?_)
    rw [pairRecords_eq]
    exact length_filter_map hpairs fun q => decide (q = pair)

/-! ## Every package in a database -/

/-- Every package is in one database, and the counts of the databases, of the
universe and of the chunks agree. -/
structure Partitioned (lane : OwnedLane) (merged : List PackageRecord) (p : Preparation) (t : RepoState) : Prop where
  once : ∀ record ∈ merged, ∃! pair, pair ∈ pairs lane ∧ record.collection = pair.collection ∧
    record.targetArchitecture = pair.architecture
  total : p.packageCount = merged.length
  row : ∃ row ∈ t.universes, row.id = p.universeId ∧ row.packageCount = p.packageCount
  snapshots : (p.snapshots.map (·.packageCount)).sum = p.packageCount
  chunks : (p.packageChunks.map (·.packageCount)).sum = p.packageCount

/-- The lane has a database for every package on each of its targets. -/
def Housed (lane : OwnedLane) (current parent : List PackageRecord) : Prop :=
  (∀ record ∈ current, ∀ target ∈ record.targets, ⟨record.collection, target⟩ ∈ pairs lane) ∧
    ∀ record ∈ parent, ¬Replaced current record.nameKey → record.pair ∈ pairs lane

/-- The merged packages are those that have to have a database. -/
theorem MergedFrom.housed_iff {lane : OwnedLane} {current parent merged : List PackageRecord}
    (h : MergedFrom current parent merged) : (∀ record ∈ merged, record.pair ∈ pairs lane) ↔ Housed lane current parent := by
  constructor
  · refine fun hall => ⟨fun record hr target ht => ?_, fun record hr hno => hall record (h.parent_kept record hr hno)⟩
    obtain ⟨new, hnew, hkey, hcollection⟩ := h.current_kept record hr target ht
    have hin := hall new hnew
    rwa [PackageRecord.pair, hcollection, (targetKey_inj hkey).1] at hin
  · rintro ⟨hcurrent, hparent⟩ new hnew
    rcases h.only new hnew with ⟨record, hr, target, ht, rfl⟩ | ⟨hr, hno⟩
    · exact hcurrent record hr target ht
    · exact hparent new hr hno

theorem existsUnique_pair {lane : OwnedLane} {record : PackageRecord} :
    (∃! pair, pair ∈ pairs lane ∧ record.collection = pair.collection ∧ record.targetArchitecture = pair.architecture) ↔
      record.pair ∈ pairs lane := by
  constructor
  · rintro ⟨⟨collection, architecture⟩, ⟨hin, hcollection, htarget⟩, -⟩
    rwa [PackageRecord.pair, hcollection, htarget]
  · intro hin
    refine ⟨record.pair, ⟨hin, rfl, rfl⟩, fun pair hpair => ?_⟩
    rw [PackageRecord.pair, hpair.2.1, hpair.2.2]

/-- A prepared release has every package in a database exactly when the lane has one for each. -/
theorem partitioned_iff_housed (env : RepositoryEnv) (input : PrepareInput) (ω : RepoDraws)
    (current merged : List PackageRecord) (trusted : List ArtifactRow × List SnapshotRow) (p : Preparation) (s t : RepoState)
    (hcurrent : env.current input = .ok current) (htrusted : env.trusted input = .ok trusted)
    (hmerged : mergeRecords env current trusted.1 = .ok merged) (h : (prepareNew env input ω).run s = (.ok p, t)) :
    Partitioned input.lane merged p t ↔ Housed input.lane current (trusted.1.map (·.toPackageRecord)) := by
  have hfrom := mergeRecords_from hmerged
  obtain ⟨current', hcurrent', h⟩ := run_ofExcept_bind_ok.mp h
  obtain rfl := Except.ok.inj (hcurrent.symm.trans hcurrent')
  obtain ⟨trusted', htrusted', h⟩ := run_ofExcept_bind_ok.mp h
  obtain rfl := Except.ok.inj (htrusted.symm.trans htrusted')
  obtain ⟨merged', hmerged', h⟩ := run_ofExcept_bind_ok.mp h
  obtain rfl := Except.ok.inj (hmerged.symm.trans hmerged')
  split at h
  · cases h
  have hcounted := storePreparation_counted h
  rw [← hfrom.housed_iff]
  constructor
  · exact fun hp record hr => existsUnique_pair.mp (hp.once record hr)
  · intro hall
    obtain ⟨row, hrow, hid, hcount⟩ := hcounted.row
    refine ⟨fun record hr => existsUnique_pair.mpr (hall record hr), hcounted.total,
      ⟨row, hrow, hid, hcount.trans hcounted.total.symm⟩, ?_, hcounted.chunks.trans hcounted.total.symm⟩
    rw [hcounted.snapshots, sum_counts PackageRecord.pair (pairs_nodup input.lane) hall, hcounted.total]

/-! ## A portable package of `multilib` -/

/-- A repository whose one package is a portable one of `multilib`. -/
def multilibEnv : RepositoryEnv :=
  { sampleEnv with current := fun _ => .ok [{ portablePackage "1" "a-1" .x86_64 with collection := .multilib }] }

def multilibInput : PrepareInput := ⟨.system, "4.0.0", [], none⟩

/-- The package as it is merged for an architecture. -/
def multilibPackage (target : Architecture) : PackageRecord :=
  { portablePackage "1" "a-1" target with collection := .multilib }

def multilibRef (target : Architecture) : PackageRef := publicPackageRef multilibEnv .system "4.0.0" ⟨multilibPackage target, "id"⟩

def multilibRefs : List PackageRef := [multilibRef .aarch64, multilibRef .x86_64]

theorem multilibPlan : Plan multilibEnv multilibInput multilibInput [multilibPackage .x86_64]
    [multilibPackage .aarch64, multilibPackage .x86_64] ([], []) ⟨.core, .x86_64⟩ (pairs .system).tail :=
  ⟨rfl, rfl, rfl, rfl, by decide, rfl⟩

/-- What the release of the package comes to. -/
structure MultilibFacts : Prop where
  stored : storesRefs multilibInput multilibRefs ((beforeChunks multilibEnv multilibInput [multilibPackage .x86_64]
    [multilibPackage .aarch64, multilibPackage .x86_64] [] ⟨.core, .x86_64⟩ (pairs .system).tail fun _ => sampleDraw).run
      emptyState) = true
  first : (jsonBytes (chunkDocument 0 maxChunks [multilibRef .aarch64])).length ≤ maxChunkBytes
  both : (jsonBytes (chunkDocument 0 maxChunks multilibRefs)).length ≤ maxChunkBytes
  small : (jsonBytes (chunkDocument 0 1 multilibRefs)).length ≤ maxChunkBytes
  safe : isSafeKey (chunkKey .system "4.0.0" 0) = true

theorem multilibFacts : MultilibFacts := by
  constructor
  · decide +kernel
  · decide +kernel
  · decide +kernel
  · decide +kernel
  · decide +kernel

theorem multilib_prepared : ∃ p t, (prepareNew multilibEnv multilibInput fun _ => sampleDraw).run emptyState = (.ok p, t) := by
  have hpack : packChunks [] [] multilibRefs = .ok [multilibRefs] := by
    have hfirst : ¬maxChunkBytes < (jsonBytes (chunkDocument 0 maxChunks [multilibRef .aarch64])).length :=
      Nat.not_lt.mpr multilibFacts.first
    have hboth : ¬maxChunkBytes < (jsonBytes (chunkDocument 0 maxChunks [multilibRef .aarch64, multilibRef .x86_64])).length :=
      Nat.not_lt.mpr multilibFacts.both
    have hpos : maxChunks ≠ 0 := by decide
    simp [multilibRefs, packChunks, hfirst, hboth, hpos]
  exact prepareNew_stored multilibPlan (by simp [multilibRefs]) multilibFacts.stored hpack multilibFacts.small multilibFacts.safe

/-- What a preparation merged. -/
theorem prepareNew_merged {env : RepositoryEnv} {input : PrepareInput} {ω : RepoDraws} {p : Preparation} {s t : RepoState}
    (h : (prepareNew env input ω).run s = (.ok p, t)) : ∃ current trusted merged, env.current input = .ok current ∧
      env.trusted input = .ok trusted ∧ mergeRecords env current trusted.1 = .ok merged := by
  obtain ⟨current, hcurrent, h⟩ := run_ofExcept_bind_ok.mp h
  obtain ⟨trusted, htrusted, h⟩ := run_ofExcept_bind_ok.mp h
  obtain ⟨merged, hmerged, -⟩ := run_ofExcept_bind_ok.mp h
  exact ⟨current, trusted, merged, hcurrent, htrusted, hmerged⟩

/-- A release that was not prepared before goes through all of the preparation. -/
theorem run_prepareNew {env : RepositoryEnv} {input : PrepareInput} {ω : RepoDraws} {p : Preparation} {s t : RepoState}
    (hfresh : Untouched input s) (h : (prepareOwnedRepositorySnapshots env input ω).run s = (.ok p, t)) :
    (prepareNew env input ω).run s = (.ok p, t) := by
  obtain ⟨input', hchecked, hrun⟩ := run_ofExcept_bind_ok.mp h
  obtain rfl := checkInput_ok hchecked
  obtain ⟨existing, s₁, hexisting, hrun⟩ := run_bind_ok.mp hrun
  have hnone : (existingPreparation env input'.lane input'.releaseId).run s = (.ok none, s) := by
    unfold existingPreparation
    rw [run_read_bind, releaseUniverse_none hfresh.universes]
    rfl
  rw [hnone] at hexisting
  cases hexisting
  exact hrun

/-- The one package of `omapkg` is in its database. -/
theorem partitioned_omapkg : ∃ merged p t,
    (prepareNew sampleEnv sampleInput fun _ => sampleDraw).run emptyState = (.ok p, t) ∧ Partitioned .opr merged p t := by
  obtain ⟨p, t, hrun⟩ := sample_done
  have hnew := run_prepareNew sample_untouched hrun
  obtain ⟨current, trusted, merged, hcurrent, htrusted, hmerged⟩ := prepareNew_merged hnew
  refine ⟨merged, p, t, hnew, (partitioned_iff_housed sampleEnv sampleInput _ current merged trusted p _ t hcurrent
    htrusted hmerged hnew).mpr ?_⟩
  cases hcurrent
  cases htrusted
  exact ⟨by decide, fun _ h => absurd h List.not_mem_nil⟩

/-- A portable package of `multilib` is in the universe for aarch64 and in no database there. -/
theorem partitioned_fails :
    ¬∀ (env : RepositoryEnv) (input : PrepareInput) (ω : RepoDraws) (current merged : List PackageRecord)
      (trusted : List ArtifactRow × List SnapshotRow) (p : Preparation) (s t : RepoState),
      env.current input = .ok current → env.trusted input = .ok trusted →
      mergeRecords env current trusted.1 = .ok merged → (prepareNew env input ω).run s = (.ok p, t) →
      Partitioned input.lane merged p t := by
  intro h
  obtain ⟨p, t, hrun⟩ := multilib_prepared
  obtain ⟨current, trusted, merged, hcurrent, htrusted, hmerged⟩ := prepareNew_merged hrun
  have hpartitioned := h _ _ _ _ _ _ _ _ _ hcurrent htrusted hmerged hrun
  cases hcurrent
  obtain ⟨new, hnew, hkey, hcollection⟩ := (mergeRecords_from hmerged).current_kept _ List.mem_cons_self .aarch64
    (by simp [PackageRecord.targets, portablePackage])
  have hin := existsUnique_pair.mp (hpartitioned.once new hnew)
  rw [PackageRecord.pair, (targetKey_inj hkey).1, hcollection] at hin
  exact absurd hin (by decide)

end Omapkg.Server.Owned
