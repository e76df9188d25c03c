import Omapkg.Server.OwnedRepository
/-!
# Preparing again

What a preparation leaves when it stops, and what running it again makes of
that. Until its first snapshot row is stored, a preparation can be run again
from wherever it stopped; after that it cannot.
-/

namespace Omapkg.Server.Owned

open Utf Prog

/-! ## What preparing moves -/

/-- Artifacts and objects are there to stay. -/
structure Grows (s t : RepoState) : Prop where
  artifacts : s.artifacts <+: t.artifacts
  objects : ∀ key o, s.objects key = some o → t.objects key = some o

/-- Artifacts and objects are stored, and no row of a release. -/
structure Stores (s t : RepoState) : Prop extends Grows s t where
  snapshots : t.snapshots = s.snapshots
  universes : t.universes = s.universes
  chunks : t.chunks = s.chunks

theorem Grows.refl (s : RepoState) : Grows s s := ⟨List.prefix_refl _, fun _ _ h => h⟩

theorem Grows.trans {s t u : RepoState} (h : Grows s t) (h' : Grows t u) : Grows s u :=
  ⟨h.artifacts.trans h'.artifacts, fun key o ho => h'.objects key o (h.objects key o ho)⟩

instance : Std.Refl Grows := ⟨Grows.refl⟩

instance : IsTrans RepoState Grows := ⟨fun _ _ _ => Grows.trans⟩

instance : Std.Refl Stores := ⟨fun s => ⟨.refl s, rfl, rfl, rfl⟩⟩

instance : IsTrans RepoState Stores :=
  ⟨fun _ _ _ h h' => ⟨h.toGrows.trans h'.toGrows, h'.snapshots.trans h.snapshots, h'.universes.trans h.universes,
    h'.chunks.trans h.chunks⟩⟩

/-- Programs that can be run again, with draws in `D`. -/
abbrev Repeats {α : Type} (D : Draw → Prop) (S : Place → Prop) (p : RepoDraws → Prog RepoState PolicyError α) : Prop :=
  Again S D Stores Grows p

section
variable {env : RepositoryEnv} {D : Draw → Prop}

/-! ## Objects -/

/-- The object at the key has the digest and the size of what was to be stored. -/
def HasObject (env : RepositoryEnv) (key : String) (bytes : Bytes) (s : RepoState) : Prop :=
  ∃ o, s.objects key = some o ∧ o.length = bytes.length ∧ (env.sha256 o).hex = (env.sha256 bytes).hex

theorem HasObject.grows {key : String} {bytes : Bytes} {s t : RepoState} (h : HasObject env key bytes s)
    (hs : Grows s t) : HasObject env key bytes t := by
  obtain ⟨o, ho, hsame⟩ := h
  exact ⟨o, hs.objects key o ho, hsame⟩

theorem verifyHead_stops {key : String} {object : Bytes} {digest : String} {size : Nat} {s t : RepoState}
    (h : Stops (verifyHead env key object digest size) s t) : t = s := by
  unfold verifyHead at h
  split at h
  · exact stops_fail.mp h
  · rcases stops_read_bind.mp h with h | h
    · exact h
    · split at h
      · exact stops_fail.mp h
      · split at h
        · exact stops_fail.mp h
        · exact stops_done.mp h

theorem verifyHead_ok {key : String} {object : Bytes} {digest : String} {size : Nat} {s s' : RepoState}
    (hobject : s.objects key = some object) :
    (verifyHead env key object digest size).run s = (.ok (), s') ↔
      s' = s ∧ object.length = size ∧ (env.sha256 object).hex = digest := by
  unfold verifyHead
  split
  · next hsize => exact ⟨fun h => (nomatch (Prod.mk.inj h).1), fun h => absurd h.2.1 hsize⟩
  · next hsize =>
    rw [run_read_bind, hobject]
    simp only
    split
    · next hbad => exact ⟨fun h => (nomatch (Prod.mk.inj h).1), fun h => absurd h.2 (by tauto)⟩
    · next hgood =>
      simp only [not_or, ne_eq, Classical.not_not] at hsize hgood
      exact ⟨fun h => ⟨(Prod.mk.inj h).2.symm, hsize, hgood.2⟩, fun h => by rw [h.1]; rfl⟩

theorem immutableBytes_new {key : String} {bytes : Bytes} {s : RepoState} (hkey : ¬isSafeKey key = false)
    (hobject : s.objects key = none) :
    (immutableBytes env key bytes (env.sha256 bytes).hex).run s =
      (.ok (), { s with objects := Function.update s.objects key (some bytes) }) := by
  have hput : (putNew key bytes).run s =
      (.ok true, { s with objects := Function.update s.objects key (some bytes) }) := by
    simp [putNew, transact, run, hobject, Prog.ofExcept]
  unfold immutableBytes
  rw [if_neg hkey, if_neg (by simp), run_read_bind, hobject]
  exact run_bind_ok.mpr ⟨true, _, hput, rfl⟩

/-- Storing an object only adds it, in a step of its own. -/
theorem immutableBytes_once {key : String} {bytes : Bytes} {s t : RepoState}
    (h : Stops (immutableBytes env key bytes (env.sha256 bytes).hex) s t) :
    t = s ∨ (s.objects key = none ∧ t = { s with objects := Function.update s.objects key (some bytes) } ∧
      (immutableBytes env key bytes (env.sha256 bytes).hex).run s = (.ok (), t)) := by
  unfold immutableBytes at h
  split at h
  · exact .inl (stops_fail.mp h)
  · next hkey =>
    split at h
    · exact .inl (stops_fail.mp h)
    · rcases stops_read_bind.mp h with h | h
      · exact .inl h
      · cases hobject : s.objects key with
        | some object =>
          rw [hobject] at h
          exact .inl (verifyHead_stops h)
        | none =>
          rw [hobject] at h
          rcases stops_bind.mp h with h | ⟨stored, s', hstored, h⟩
          · rcases stops_step.mp h with h | h
            · exact .inl h
            · simp only [hobject] at h
              obtain rfl := stops_ofExcept.mp h
              exact .inr ⟨rfl, rfl, immutableBytes_new hkey hobject⟩
          · simp only [putNew, transact, run, hobject, Prog.ofExcept, Prod.mk.injEq, Except.ok.injEq] at hstored
            obtain ⟨rfl, rfl⟩ := hstored
            obtain rfl := stops_done.mp h
            exact .inr ⟨rfl, rfl, immutableBytes_new hkey hobject⟩

theorem immutableBytes_ok {key : String} {bytes : Bytes} {s s' : RepoState}
    (h : (immutableBytes env key bytes (env.sha256 bytes).hex).run s = (.ok (), s')) :
    ¬isSafeKey key = false ∧ HasObject env key bytes s' := by
  have hkey : ¬isSafeKey key = false := by
    intro hunsafe
    rw [immutableBytes, if_pos hunsafe] at h
    cases h
  refine ⟨hkey, ?_⟩
  cases hobject : s.objects key with
  | some object =>
    rw [immutableBytes, if_neg hkey, if_neg (by simp), run_read_bind, hobject] at h
    obtain ⟨rfl, hsize, hdigest⟩ := (verifyHead_ok hobject).mp h
    exact ⟨object, hobject, hsize, hdigest⟩
  | none =>
    rw [immutableBytes_new hkey hobject] at h
    cases h
    exact ⟨bytes, Function.update_self .., rfl, rfl⟩

/-- An object that is there already is only looked at. -/
theorem immutableBytes_settled {key : String} {bytes : Bytes} {s : RepoState} (hkey : ¬isSafeKey key = false)
    (h : HasObject env key bytes s) : Settled (immutableBytes env key bytes (env.sha256 bytes).hex) () s := by
  obtain ⟨object, hobject, hsize, hdigest⟩ := h
  refine ⟨?_, fun t ht => ?_⟩
  · rw [immutableBytes, if_neg hkey, if_neg (by simp), run_read_bind, hobject]
    exact (verifyHead_ok hobject).mpr ⟨rfl, hsize, hdigest⟩
  · rcases immutableBytes_once ht with h | ⟨hnone, -, -⟩
    · exact h
    · rw [hobject] at hnone
      cases hnone

theorem immutableBytes_repeats (key : String) (bytes : Bytes) :
    Repeats D (fun _ => False) fun _ => immutableBytes env key bytes (env.sha256 bytes).hex := by
  refine .of_once (fun _ _ _ => rfl) (fun _ s t ht => ?_) (fun _ s t ht => ?_) fun _ _ s s' a hrun t ht => ?_
  · rcases immutableBytes_once ht with rfl | ⟨hnone, rfl, -⟩
    · exact refl_of Stores t
    · refine ⟨⟨List.prefix_refl _, fun k o ho => ?_⟩, rfl, rfl, rfl⟩
      have hne : k ≠ key := by
        rintro rfl
        rw [hnone] at ho
        cases ho
      exact (Function.update_of_ne hne _ _).trans ho
  · rcases immutableBytes_once ht with h | ⟨-, -, hrun⟩
    · exact .inl h
    · exact .inr ⟨(), hrun⟩
  · obtain ⟨hkey, hobject⟩ := immutableBytes_ok hrun
    exact immutableBytes_settled hkey (hobject.grows ht)

/-- Reading what is there to stay. -/
theorem readSome_repeats {α β : Type} {S : Place → Prop} {view : RepoState → Option β} {e : PolicyError}
    {f : β → RepoDraws → Prog RepoState PolicyError α} (hview : ∀ s t b, view s = some b → Grows s t → view t = some b)
    (hf : ∀ b, Repeats D S (f b)) :
    Repeats D S fun ω => read view >>= fun found =>
      match found with
      | none => fail e
      | some b => f b ω := by
  have hread : Repeats D (fun _ => False) fun _ => (read view >>= fun found =>
      match found with
      | none => fail e
      | some b => pure b : Prog RepoState PolicyError β) := by
    have hstops : ∀ s t, Stops (read view >>= fun found =>
        match found with
        | none => fail e
        | some b => pure b : Prog RepoState PolicyError β) s t → t = s := by
      intro s t ht
      rcases stops_read_bind.mp ht with h | h
      · exact h
      · cases hfound : view s with
        | none => exact stops_fail.mp (by rwa [hfound] at h)
        | some b => exact stops_done.mp (by rwa [hfound] at h)
    refine .of_same (fun s t ht => ?_) (fun s t ht => ?_) fun s s' b hrun t ht => ⟨?_, fun u hu => hstops t u hu⟩
    · obtain rfl := hstops s t ht
      exact refl_of Stores t
    · obtain rfl := hstops s t ht
      exact .refl _ _
    · rw [run_read_bind] at hrun ⊢
      cases hfound : view s with
      | none =>
        rw [hfound] at hrun
        cases hrun
      | some b' =>
        rw [hfound] at hrun
        cases hrun
        rw [hview s t b hfound ht]
        rfl
  have hboth := hread.bind (fun _ _ h => h.toGrows) (fun _ _ h => h) hf
  refine (hboth.mono fun i hi => hi.resolve_left id).congr fun ω => ?_
  rw [bind_assoc]
  refine congrArg (read view >>= ·) (funext fun found => ?_)
  cases found <;> rfl

/-- A program that draws nothing, and what follows it. -/
theorem repeats_bind {α β : Type} {S : Place → Prop} {p : Prog RepoState PolicyError β}
    {f : β → RepoDraws → Prog RepoState PolicyError α} (hp : Repeats D (fun _ => False) fun _ => p)
    (hf : ∀ b, Repeats D S (f b)) : Repeats D S fun ω => p >>= fun b => f b ω :=
  (hp.bind (fun _ _ h => h.toGrows) (fun _ _ h => h) hf).mono fun _ hi => hi.resolve_left id

theorem signDatabase_repeats (key filename digest : String) (size : Nat) (parent : Option SnapshotRow)
    (anchor : PackageRecord) :
    Repeats D (fun _ => False) fun _ => signDatabase env key filename digest size parent anchor := by
  unfold signDatabase
  cases parent.filter (·.dbSha256 = digest) with
  | none => exact .ofExcept _
  | some row =>
    have hcopy : ∀ bytes : Bytes, Repeats D (fun _ => False) fun _ =>
        (immutableBytes env (key ++ ".sig") bytes (env.sha256 bytes).hex >>= fun _ =>
          pure (key ++ ".sig", (env.sha256 bytes).hex) : Prog RepoState PolicyError (String × String)) :=
      fun bytes => repeats_bind (immutableBytes_repeats _ _) fun _ => .ofExcept (.ok _)
    have hread := readSome_repeats (e := ⟨409, "Trusted parent database signature is missing."⟩)
      (fun s t b hb (hs : Grows s t) => hs.objects row.dbSignatureKey b hb) hcopy
    refine hread.congr fun _ => ?_
    refine congrArg (fun f => Prog.read (fun s : RepoState => s.objects row.dbSignatureKey) >>= f) (funext fun found => ?_)
    cases found <;> rfl

theorem storeObjects_repeats (input : PrepareInput) (pair : Pair) (records : List ArtifactRow) (parent : Option SnapshotRow)
    (anchor : PackageRecord) :
    Repeats D (fun _ => False) fun _ => storeObjects env input pair records parent anchor := by
  refine repeats_bind (.ofExcept _) fun database => ?_
  refine repeats_bind (immutableBytes_repeats _ _) fun _ => ?_
  refine repeats_bind (signDatabase_repeats _ _ _ _ _ _) fun signature => ?_
  exact repeats_bind (immutableBytes_repeats _ _) fun _ => .ofExcept (.ok _)

/-! ## Artifacts -/

theorem findArtifact_grows {target : Architecture} {filename : String} {a : StoredArtifact} {s t : RepoState}
    (h : findArtifact target filename s = some a) (hs : Grows s t) : findArtifact target filename t = some a := by
  obtain ⟨new, hnew⟩ := hs.artifacts
  unfold findArtifact at h ⊢
  rw [← hnew, List.find?_append, h, Option.some_or]

theorem insertArtifact_new {row : StoredArtifact} {s : RepoState} {n : Nat}
    (h : findArtifact row.targetArchitecture row.artifactFilename s = none) :
    insertArtifact row s n = .ok ({ s with artifacts := s.artifacts ++ [row] }, 1) := by
  have hfree : ∀ a ∈ s.artifacts,
      (a.targetArchitecture = row.targetArchitecture && a.artifactFilename = row.artifactFilename) = false :=
    fun a ha => by simpa using List.find?_eq_none.mp h a ha
  unfold insertArtifact
  rw [Sql.insert_ok.mpr ⟨hfree, rfl, rfl⟩]
  rfl

theorem runOne_ok {statement : Sql.Statement RepoState} {s s' : RepoState} {n : Nat} (h : statement s 0 = .ok (s', n)) :
    (runOne statement).run s = (.ok [n], s') := by
  simp [runOne, Sql.run, Sql.batch, Sql.runAll, transact, run, h, Prog.ofExcept, bind, Except.bind]

theorem runOne_error {statement : Sql.Statement RepoState} {s : RepoState} {e : Sql.Raised}
    (h : statement s 0 = .error e) : (runOne statement).run s = (.error (raise e), s) := by
  simp [runOne, Sql.run, Sql.batch, Sql.runAll, transact, run, h, Prog.ofExcept, bind, Except.bind]

theorem runOne_run {statement : Sql.Statement RepoState} {s t : RepoState} {ns : List Nat}
    (h : (runOne statement).run s = (.ok ns, t)) : ∃ n, statement s 0 = .ok (t, n) := by
  cases hrun : statement s 0 with
  | error e =>
    rw [runOne_error hrun] at h
    cases h
  | ok answer =>
    rw [runOne_ok (n := answer.2) hrun] at h
    cases h
    exact ⟨answer.2, rfl⟩

/-- A statement of its own is run at once. -/
theorem runOne_stops {statement : Sql.Statement RepoState} {s t : RepoState} (h : Stops (runOne statement) s t) :
    t = s ∨ ∃ n, statement s 0 = .ok (t, n) := by
  rcases stops_step.mp h with h | h
  · exact .inl h
  · obtain rfl := stops_ofExcept.mp h
    cases hrun : statement s 0 with
    | error e => simp [Sql.batch, Sql.runAll, hrun, bind, Except.bind]
    | ok answer => exact .inr ⟨answer.2, by simp [Sql.batch, Sql.runAll, hrun, bind, Except.bind]⟩

theorem persistArtifact_new {d : Draw} {record : PackageRecord} {s : RepoState}
    (h : findArtifact record.targetArchitecture record.artifactFilename s = none) :
    (persistArtifact d record).run s =
      (.ok ⟨record, d.id⟩, { s with artifacts := s.artifacts ++ [⟨⟨record, d.id⟩, d.now⟩] }) := by
  unfold persistArtifact
  rw [run_read_bind, h]
  exact run_bind_ok.mpr ⟨_, _, runOne_ok (insertArtifact_new h), rfl⟩

theorem persistArtifact_once {d : Draw} {record : PackageRecord} {s t : RepoState} (h : Stops (persistArtifact d record) s t) :
    t = s ∨ (findArtifact record.targetArchitecture record.artifactFilename s = none ∧
      t = { s with artifacts := s.artifacts ++ [⟨⟨record, d.id⟩, d.now⟩] }) := by
  rcases stops_read_bind.mp h with h | h
  · exact .inl h
  · cases hfound : findArtifact record.targetArchitecture record.artifactFilename s with
    | some row =>
      rw [hfound] at h
      simp only at h
      split at h
      · exact .inl (stops_fail.mp h)
      · exact .inl (stops_done.mp h)
    | none =>
      rw [hfound] at h
      have hinsert : insertArtifact ⟨⟨record, d.id⟩, d.now⟩ s 0 =
          .ok ({ s with artifacts := s.artifacts ++ [⟨⟨record, d.id⟩, d.now⟩] }, 1) := insertArtifact_new hfound
      rcases stops_bind.mp h with h | ⟨ns, s', hrun, h⟩
      · rcases runOne_stops h with h | ⟨n, h⟩
        · exact .inl h
        · rw [hinsert] at h
          cases h
          exact .inr ⟨rfl, rfl⟩
      · rw [runOne_ok hinsert] at hrun
        cases hrun
        exact .inr ⟨rfl, stops_done.mp h⟩

/-- The answer of a record whose artifact is stored. -/
theorem persistArtifact_found {d : Draw} {record : PackageRecord} {a : StoredArtifact} {s : RepoState}
    (h : findArtifact record.targetArchitecture record.artifactFilename s = some a) :
    (persistArtifact d record).run s =
      if a.artifactSha256 ≠ record.artifactSha256 ∨ a.name ≠ record.name ∨ a.version ≠ record.version ∨
          a.collection ≠ record.collection ∨ a.architecture ≠ record.architecture then
        (.error ⟨409, s!"Immutable package filename {record.artifactFilename} has changed."⟩, s)
      else (.ok a.toArtifactRow, s) := by
  unfold persistArtifact
  rw [run_read_bind, h]
  simp only
  split <;> rfl

theorem persistArtifact_settles {d d₂ : Draw} {record : PackageRecord} {row : ArtifactRow} {s s' t : RepoState}
    (hrun : (persistArtifact d record).run s = (.ok row, s')) (ht : Grows s' t) :
    Settled (persistArtifact d₂ record) row t := by
  suffices hfound : ∃ a, findArtifact record.targetArchitecture record.artifactFilename t = some a ∧
      (persistArtifact d₂ record).run t = (.ok row, t) by
    obtain ⟨a, ha, hanswer⟩ := hfound
    refine ⟨hanswer, fun u hu => ?_⟩
    rcases persistArtifact_once hu with h | ⟨hnone, -⟩
    · exact h
    · rw [ha] at hnone
      cases hnone
  cases hfound : findArtifact record.targetArchitecture record.artifactFilename s with
  | some a =>
    rw [persistArtifact_found hfound] at hrun
    split at hrun
    · cases hrun
    · next hsame =>
      cases hrun
      have ha := findArtifact_grows hfound ht
      exact ⟨a, ha, by rw [persistArtifact_found ha, if_neg hsame]⟩
  | none =>
    rw [persistArtifact_new hfound] at hrun
    cases hrun
    have hnew : findArtifact record.targetArchitecture record.artifactFilename
        { s with artifacts := s.artifacts ++ [⟨⟨record, d.id⟩, d.now⟩] } = some ⟨⟨record, d.id⟩, d.now⟩ := by
      unfold findArtifact at hfound ⊢
      rw [List.find?_append, hfound, Option.none_or, List.find?_cons_of_pos (by simp)]
    have ha := findArtifact_grows hnew ht
    exact ⟨_, ha, by rw [persistArtifact_found ha, if_neg (by simp)]⟩

theorem persistArtifact_repeats (k : Nat) (record : PackageRecord) :
    Repeats D (· = .artifact k) fun ω => persistArtifact (ω (.artifact k)) record := by
  refine .of_once (fun ω ω' h => ?_) (fun ω s t ht => ?_) (fun ω s t ht => ?_) fun ω ω₂ s s' row hrun t ht => ?_
  · rw [h (.artifact k) rfl]
  · rcases persistArtifact_once ht with rfl | ⟨-, rfl⟩
    · exact refl_of Stores t
    · exact ⟨⟨List.prefix_append _ _, fun _ _ h => h⟩, rfl, rfl, rfl⟩
  · rcases persistArtifact_once ht with h | ⟨hnone, rfl⟩
    · exact .inl h
    · exact .inr ⟨_, persistArtifact_new hnone⟩
  · exact persistArtifact_settles hrun ht

/-- The places of the artifacts from the `k`-th on. -/
def ArtifactsFrom (k : Nat) : Place → Prop
  | .artifact j => k ≤ j
  | _ => False

theorem persistArtifacts_repeats (k : Nat) (records : List PackageRecord) :
    Repeats D (ArtifactsFrom k) fun ω => persistArtifacts ω k records := by
  induction records generalizing k with
  | nil => exact (Again.ofExcept (.ok [])).mono fun _ h => h.elim
  | cons record rest ih =>
    have hrest : ∀ row : ArtifactRow, Repeats D (ArtifactsFrom (k + 1)) fun ω =>
        persistArtifacts ω (k + 1) rest >>= fun rows => (pure (row :: rows) : Prog RepoState PolicyError _) := by
      intro row
      have hpure : ∀ rows : List ArtifactRow, Repeats D (fun _ => False) fun _ =>
          (pure (row :: rows) : Prog RepoState PolicyError _) := fun rows => .ofExcept (.ok _)
      classical
      exact ((ih (k + 1)).bind (fun _ _ h => h.toGrows) (fun _ h => h.elim) hpure).mono fun i hi => hi.resolve_right id
    have hboth := (persistArtifact_repeats k record).bind (fun _ _ h => h.toGrows) (fun i hi hk => ?_) hrest
    · refine hboth.mono fun i hi => ?_
      rcases hi with rfl | hi
      · exact Nat.le_refl k
      · cases i with
        | artifact j => exact Nat.le_of_succ_le hi
        | snapshot j => exact hi
        | root => exact hi
        | chunk j => exact hi
    · subst hk
      exact Nat.not_succ_le_self k hi

/-! ## Before and after the first row -/

/-- The objects of the first repository, and the record its signature is asked for. -/
def firstObjects (env : RepositoryEnv) (input : PrepareInput) (current : List PackageRecord) (parents : List SnapshotRow)
    (pair : Pair) (records : List ArtifactRow) : Prog RepoState PolicyError (PackageRecord × SnapshotObjects) :=
  match current.head? <|> records.head?.map (·.toPackageRecord) with
  | none => rejected "Owned repository has no signing context."
  | some anchor => do
    let stored ← storeObjects env input pair (pairRecords records pair) (parentByPair parents pair) anchor
    pure (anchor, stored)

/-- What is stored before the first row of the release. -/
def before (env : RepositoryEnv) (input : PrepareInput) (current merged : List PackageRecord) (parents : List SnapshotRow)
    (pair : Pair) (ω : RepoDraws) : Prog RepoState PolicyError (List ArtifactRow × PackageRecord × SnapshotObjects) := do
  let records ← persistArtifacts ω 0 merged
  let first ← firstObjects env input current parents pair records
  pure (records, first)

/-- The rows of snapshots. -/
def afterSnapshots (env : RepositoryEnv) (input : PrepareInput) (parents : List SnapshotRow) (pair : Pair) (rest : List Pair)
    (ω : RepoDraws) (x : List ArtifactRow × PackageRecord × SnapshotObjects) :
    Prog RepoState PolicyError (List SnapshotRow) := do
  let row ← storeRows (ω (.snapshot 0)) input pair (pairRecords x.1 pair) x.2.2
  let rows ← storeSnapshots env ω input x.1 parents x.2.1 1 rest
  pure (row :: rows)

/-- What is stored from the first row on. -/
def after (env : RepositoryEnv) (input : PrepareInput) (parents : List SnapshotRow) (pair : Pair) (rest : List Pair)
    (ω : RepoDraws) (x : List ArtifactRow × PackageRecord × SnapshotObjects) :
    Prog RepoState PolicyError Preparation := do
  let snapshots ← afterSnapshots env input parents pair rest ω x
  let universe' ← persistUniverse env (ω .root) input x.1
  let chunks ← persistChunks env ω input universe'.2
  pure ⟨input.lane, input.releaseId, snapshots.map (snapshotRef env), chunks, universe'.2.length, universe'.1.id,
    universe'.1.rootSha256⟩

theorem storePreparation_eq {input : PrepareInput} {pair : Pair} {rest : List Pair} (hpairs : pairs input.lane = pair :: rest)
    (current merged : List PackageRecord) (parents : List SnapshotRow) (ω : RepoDraws) :
    storePreparation env ω input current merged parents =
      before env input current merged parents pair ω >>= after env input parents pair rest ω := by
  unfold storePreparation before
  rw [bind_assoc]
  refine congrArg (fun f => persistArtifacts ω 0 merged >>= f) (funext fun records => ?_)
  rw [bind_assoc]
  unfold firstObjects
  cases current.head? <|> records.head?.map (·.toPackageRecord) with
  | none => rfl
  | some anchor =>
    simp only [hpairs, storeSnapshots, storeSnapshot, bind_assoc]
    refine congrArg (fun f => storeObjects env input pair _ _ anchor >>= f) (funext fun stored => ?_)
    show _ = after env input parents pair rest ω (records, anchor, stored)
    simp only [after, afterSnapshots, bind_assoc]

theorem before_repeats (input : PrepareInput) (current merged : List PackageRecord) (parents : List SnapshotRow)
    (pair : Pair) : Repeats D (ArtifactsFrom 0) (before env input current merged parents pair) := by
  have hfirst : ∀ records : List ArtifactRow, Repeats D (fun _ => False) fun _ =>
      (firstObjects env input current parents pair records >>= fun first => pure (records, first) :
        Prog RepoState PolicyError _) := by
    intro records
    refine repeats_bind ?_ fun first => .ofExcept (.ok (records, first))
    unfold firstObjects
    cases current.head? <|> records.head?.map (·.toPackageRecord) with
    | none => exact .ofExcept (.error _)
    | some anchor => exact repeats_bind (storeObjects_repeats _ _ _ _ _) fun stored => .ofExcept (.ok (anchor, stored))
  classical
  have hboth := (persistArtifacts_repeats 0 merged).bind (fun _ _ h => h.toGrows) (fun _ h => h.elim) hfirst
  exact hboth.mono fun i hi => hi.resolve_right id

theorem storeSnapshots_draws {ω ω' : RepoDraws} (h : ∀ k, ω (.snapshot k) = ω' (.snapshot k)) (input : PrepareInput)
    (records : List ArtifactRow) (parents : List SnapshotRow) (anchor : PackageRecord) (k : Nat) (rest : List Pair) :
    storeSnapshots env ω input records parents anchor k rest = storeSnapshots env ω' input records parents anchor k rest := by
  induction rest generalizing k with
  | nil => rfl
  | cons pair rest ih => rw [storeSnapshots, storeSnapshots, h k, funext fun _ => congrArg (· >>= _) (ih (k + 1))]

theorem storeChunks_draws {ω ω' : RepoDraws} (h : ∀ k, ω (.chunk k) = ω' (.chunk k)) (input : PrepareInput) (count : Nat)
    (index : Nat) (chunks : List (List PackageRef)) :
    storeChunks env ω input count index chunks = storeChunks env ω' input count index chunks := by
  induction chunks generalizing index with
  | nil => rfl
  | cons packages rest ih => rw [storeChunks, storeChunks, h index, funext fun _ => congrArg (· >>= _) (ih (index + 1))]

/-- From the first row on, nothing is drawn for artifacts. -/
theorem after_draws {ω ω' : RepoDraws} (h : ∀ i, ¬ArtifactsFrom 0 i → ω i = ω' i) (input : PrepareInput)
    (parents : List SnapshotRow) (pair : Pair) (rest : List Pair)
    (x : List ArtifactRow × PackageRecord × SnapshotObjects) :
    after env input parents pair rest ω x = after env input parents pair rest ω' x := by
  have hsnapshot : ∀ k, ω (.snapshot k) = ω' (.snapshot k) := fun k => h _ id
  have hchunk : ∀ k, ω (.chunk k) = ω' (.chunk k) := fun k => h _ id
  unfold after afterSnapshots persistChunks
  rw [hsnapshot 0, h .root id, storeSnapshots_draws hsnapshot]
  simp only [storeChunks_draws hchunk]

/-! ## Rows of a release -/

/-- Nothing of the release is stored but artifacts and objects. -/
structure Untouched (input : PrepareInput) (s : RepoState) : Prop where
  snapshots : ∀ r ∈ s.snapshots, ¬(r.lane = input.lane ∧ r.releaseId = input.releaseId)
  universes : ∀ u ∈ s.universes, ¬(u.lane = input.lane ∧ u.releaseId = input.releaseId)
  chunks : ∀ c ∈ s.chunks, ¬(c.lane = input.lane ∧ c.releaseId = input.releaseId)

def HasSnapshot (input : PrepareInput) (s : RepoState) : Prop :=
  ∃ r ∈ s.snapshots, r.lane = input.lane ∧ r.releaseId = input.releaseId

def ourChunks (input : PrepareInput) (s : RepoState) : List ChunkRow :=
  s.chunks.filter fun c => c.lane = input.lane && c.releaseId = input.releaseId

/-- All chunks of the release are stored: as many as each of their rows says. -/
def Chunked (input : PrepareInput) (s : RepoState) : Prop :=
  ∃ c ∈ ourChunks input s, (ourChunks input s).length = c.chunkCount

/-- Rows of snapshots are there to stay, and those of universes and chunks stay as they are. -/
structure Lists (s t : RepoState) : Prop extends Grows s t where
  snapshots : ∀ r ∈ s.snapshots, r ∈ t.snapshots
  universes : t.universes = s.universes
  chunks : t.chunks = s.chunks

/-- Rows of snapshots and universes are there to stay. -/
structure Later (s t : RepoState) : Prop extends Grows s t where
  snapshots : ∀ r ∈ s.snapshots, r ∈ t.snapshots
  universes : ∀ u ∈ s.universes, u ∈ t.universes

instance : Std.Refl Lists := ⟨fun s => ⟨.refl s, fun _ h => h, rfl, rfl⟩⟩

instance : IsTrans RepoState Lists :=
  ⟨fun _ _ _ h h' => ⟨h.toGrows.trans h'.toGrows, fun r hr => h'.snapshots r (h.snapshots r hr),
    h'.universes.trans h.universes, h'.chunks.trans h.chunks⟩⟩

instance : Std.Refl Later := ⟨fun s => ⟨.refl s, fun _ h => h, fun _ h => h⟩⟩

instance : IsTrans RepoState Later :=
  ⟨fun _ _ _ h h' => ⟨h.toGrows.trans h'.toGrows, fun r hr => h'.snapshots r (h.snapshots r hr),
    fun u hu => h'.universes u (h.universes u hu)⟩⟩

theorem Stores.lists {s t : RepoState} (h : Stores s t) : Lists s t :=
  ⟨h.toGrows, fun _ hr => h.snapshots ▸ hr, h.universes, h.chunks⟩

theorem Lists.later {s t : RepoState} (h : Lists s t) : Later s t :=
  ⟨h.toGrows, h.snapshots, fun _ hu => h.universes ▸ hu⟩

theorem moves_runOne {G : RepoState → RepoState → Prop} [Std.Refl G] {statement : Sql.Statement RepoState}
    (h : ∀ s t n, statement s 0 = .ok (t, n) → G s t) : Moves G (runOne statement) := by
  intro s t ht
  rcases runOne_stops ht with rfl | ⟨n, hrun⟩
  · exact refl_of G t
  · exact h s t n hrun

theorem moves_runEach {G : RepoState → RepoState → Prop} [Std.Refl G] [IsTrans RepoState G] {α : Type}
    {statement : α → Sql.Statement RepoState} (h : ∀ a s t n, statement a s 0 = .ok (t, n) → G s t) (rows : List α) :
    Moves G (runEach statement rows) := by
  induction rows with
  | nil => exact moves_ofExcept (.ok ())
  | cons a rest ih => exact (moves_runOne (h a)).bind fun _ => ih

theorem insertSnapshot_ok {row : SnapshotRow} {s t : RepoState} {m n : Nat} (h : insertSnapshot row s m = .ok (t, n)) :
    t = { s with snapshots := s.snapshots ++ [row] } ∧ ∀ r ∈ s.snapshots,
      ¬(r.lane = row.lane ∧ r.releaseId = row.releaseId ∧ r.architecture = row.architecture ∧ r.collection = row.collection) := by
  obtain ⟨⟨snapshots, k⟩, hinsert, heq⟩ := Fallible.bind_ok.mp h
  cases heq
  obtain ⟨hfree, rfl, -⟩ := Sql.insert_ok.mp hinsert
  refine ⟨rfl, fun r hr hsame => ?_⟩
  have hclash := hfree r hr
  simp [hsame] at hclash

theorem storeRows_moves (d : Draw) (input : PrepareInput) (pair : Pair) (records : List ArtifactRow)
    (stored : SnapshotObjects) : Moves Lists (storeRows d input pair records stored) := by
  refine (moves_runOne fun s t n h => ?_).bind fun _ => (moves_runEach (fun a s t n h => ?_) _).bind fun _ =>
    moves_ofExcept (.ok _)
  · obtain ⟨rfl, -⟩ := insertSnapshot_ok h
    exact ⟨⟨List.prefix_refl _, fun _ _ h => h⟩, fun r hr => List.mem_append_left _ hr, rfl, rfl⟩
  · cases h
    exact ⟨⟨List.prefix_refl _, fun _ _ h => h⟩, fun _ hr => hr, rfl, rfl⟩

theorem storeSnapshots_moves (ω : RepoDraws) (input : PrepareInput) (records : List ArtifactRow)
    (parents : List SnapshotRow) (anchor : PackageRecord) (k : Nat) (rest : List Pair) :
    Moves Lists (storeSnapshots env ω input records parents anchor k rest) := by
  induction rest generalizing k with
  | nil => exact moves_ofExcept (.ok [])
  | cons pair rest ih =>
    refine Moves.bind ?_ fun row => (ih (k + 1)).bind fun rows => moves_ofExcept (.ok (row :: rows))
    have hobjects : Repeats (fun _ => True) (fun _ => False) fun _ =>
        storeObjects env input pair (pairRecords records pair) (parentByPair parents pair) anchor :=
      storeObjects_repeats _ _ _ _ _
    exact ((hobjects.moves ω).mono fun _ _ => Stores.lists).bind fun stored => storeRows_moves _ _ _ _ stored

theorem afterSnapshots_moves (input : PrepareInput) (parents : List SnapshotRow) (pair : Pair) (rest : List Pair)
    (ω : RepoDraws) (x : List ArtifactRow × PackageRecord × SnapshotObjects) :
    Moves Lists (afterSnapshots env input parents pair rest ω x) :=
  (storeRows_moves _ _ _ _ _).bind fun row =>
    (storeSnapshots_moves _ _ _ _ _ _ _).bind fun rows => moves_ofExcept (.ok (row :: rows))

theorem insertUniverse_ok {row : UniverseRow} {s t : RepoState} {m n : Nat} (h : insertUniverse row s m = .ok (t, n)) :
    t = { s with universes := s.universes ++ [row] } := by
  obtain ⟨⟨universes, k⟩, hinsert, heq⟩ := Fallible.bind_ok.mp h
  cases heq
  obtain ⟨-, rfl, -⟩ := Sql.insert_ok.mp hinsert
  rfl

/-- The universe is stored without a change of chunks. -/
theorem persistUniverse_moves (d : Draw) (input : PrepareInput) (records : List ArtifactRow) :
    Moves (fun s t => Later s t ∧ t.chunks = s.chunks) (persistUniverse env d input records) := by
  have : Std.Refl fun s t : RepoState => Later s t ∧ t.chunks = s.chunks := ⟨fun s => ⟨refl_of Later s, rfl⟩⟩
  have : IsTrans RepoState fun s t => Later s t ∧ t.chunks = s.chunks :=
    ⟨fun _ _ _ h h' => ⟨trans_of Later h.1 h'.1, h'.2.trans h.2⟩⟩
  unfold persistUniverse
  simp only
  split
  · refine (moves_runOne fun s t n h => ?_).bind fun _ => (moves_runEach (fun a s t n h => ?_) _).bind fun _ =>
      moves_ofExcept (.ok _)
    · obtain rfl := insertUniverse_ok h
      exact ⟨⟨⟨List.prefix_refl _, fun _ _ h => h⟩, fun _ hr => hr, fun u hu => List.mem_append_left _ hu⟩, rfl⟩
    · cases h
      exact ⟨⟨⟨List.prefix_refl _, fun _ _ h => h⟩, fun _ hr => hr, fun _ hu => hu⟩, rfl⟩
  · exact moves_ofExcept (.error _)

theorem persistUniverse_ok {d : Draw} {input : PrepareInput} {records : List ArtifactRow} {s t : RepoState}
    {universe' : UniverseRow × List PackageRef} (h : (persistUniverse env d input records).run s = (.ok universe', t)) :
    ∃ u ∈ t.universes, u.lane = input.lane ∧ u.releaseId = input.releaseId ∧ u.status = .prepared := by
  unfold persistUniverse at h
  simp only at h
  split at h
  · obtain ⟨ns, s₁, hfirst, hrest⟩ := run_bind_ok.mp h
    obtain ⟨n, hinsert⟩ := runOne_run hfirst
    obtain ⟨_, s₂, hpackages, hrest⟩ := run_bind_ok.mp hrest
    cases hrest
    have hinsertPackage : ∀ (a : UniversePackage) (s t : RepoState) (n : Nat), insertUniversePackage a s 0 = .ok (t, n) →
        Later s t := by
      intro a s t n h
      cases h
      exact ⟨⟨List.prefix_refl _, fun _ _ h => h⟩, fun _ hr => hr, fun _ hu => hu⟩
    have hkept : Later s₁ t := moves_runEach hinsertPackage _ _ _ (stops_end hpackages)
    obtain rfl := insertUniverse_ok hinsert
    exact ⟨_, hkept.universes _ (List.mem_append_right _ (List.mem_singleton.mpr rfl)), rfl, rfl, rfl⟩
  · cases h

/-! ## Chunks -/

/-- Chunks are stored, and no other rows. -/
structure Packs (s t : RepoState) : Prop extends Grows s t where
  snapshots : t.snapshots = s.snapshots
  universes : t.universes = s.universes

instance : Std.Refl Packs := ⟨fun s => ⟨.refl s, rfl, rfl⟩⟩

instance : IsTrans RepoState Packs :=
  ⟨fun _ _ _ h h' => ⟨h.toGrows.trans h'.toGrows, h'.snapshots.trans h.snapshots, h'.universes.trans h.universes⟩⟩

theorem insertChunk_ok {row : ChunkRow} {s t : RepoState} {m n : Nat} (h : insertChunk row s m = .ok (t, n)) :
    t = { s with chunks := s.chunks ++ [row] } := by
  obtain ⟨⟨chunks, k⟩, hinsert, heq⟩ := Fallible.bind_ok.mp h
  cases heq
  obtain ⟨-, rfl, -⟩ := Sql.insert_ok.mp hinsert
  rfl

theorem chunkObject_moves (input : PrepareInput) (d : Draw) (index count : Nat) (packages : List PackageRef) :
    Moves Stores (immutableBytes env (newChunk env d input index count packages).objectKey
      (jsonBytes (chunkDocument index count packages)) (newChunk env d input index count packages).objectSha256) :=
  (immutableBytes_repeats (D := fun _ => True) _ _).moves fun _ => d

theorem persistChunk_moves (d : Draw) (input : PrepareInput) (index count : Nat) (packages : List PackageRef) :
    Moves Packs (persistChunk env d input index count packages) := by
  unfold persistChunk
  simp only
  split
  · exact moves_ofExcept (.error _)
  · refine ((chunkObject_moves input d index count packages).mono fun s t h => ⟨h.toGrows, h.snapshots, h.universes⟩).bind
      fun _ => (moves_runOne fun s t n h => ?_).bind fun _ => moves_ofExcept (.ok _)
    obtain rfl := insertChunk_ok h
    exact ⟨⟨List.prefix_refl _, fun _ _ h => h⟩, rfl, rfl⟩

theorem storeChunks_moves (ω : RepoDraws) (input : PrepareInput) (count index : Nat) (chunks : List (List PackageRef)) :
    Moves Packs (storeChunks env ω input count index chunks) := by
  induction chunks generalizing index with
  | nil => exact moves_ofExcept (.ok [])
  | cons packages rest ih =>
    exact (persistChunk_moves _ _ _ _ _).bind fun ref => (ih (index + 1)).bind fun refs => moves_ofExcept (.ok (ref :: refs))

theorem persistChunk_ok {d : Draw} {input : PrepareInput} {index count : Nat} {packages : List PackageRef} {ref : ChunkRef}
    {s t : RepoState} (h : (persistChunk env d input index count packages).run s = (.ok ref, t)) :
    t.chunks = s.chunks ++ [newChunk env d input index count packages] := by
  unfold persistChunk at h
  simp only at h
  split at h
  · cases h
  · obtain ⟨_, s₁, hobject, hrest⟩ := run_bind_ok.mp h
    obtain ⟨_, s₂, hrow, hrest⟩ := run_bind_ok.mp hrest
    cases hrest
    obtain ⟨n, hinsert⟩ := runOne_run hrow
    obtain rfl := insertChunk_ok hinsert
    rw [← (chunkObject_moves input d index count packages s s₁ (stops_end hobject)).chunks]

/-- A chunk's row is stored when its program has come to its end. -/
theorem persistChunk_stops {d : Draw} {input : PrepareInput} {index count : Nat} {packages : List PackageRef} {s t : RepoState}
    (h : Stops (persistChunk env d input index count packages) s t) :
    t.chunks = s.chunks ∨ (t.chunks = s.chunks ++ [newChunk env d input index count packages] ∧
      ∃ ref, (persistChunk env d input index count packages).run s = (.ok ref, t)) := by
  unfold persistChunk at h
  simp only at h
  split at h
  · obtain rfl := stops_fail.mp h
    exact .inl rfl
  · next hsize =>
    rcases stops_bind.mp h with h | ⟨_, s₁, hobject, h⟩
    · exact .inl (chunkObject_moves input d index count packages s t h).chunks
    · have hchunks := (chunkObject_moves input d index count packages s s₁ (stops_end hobject)).chunks
      have hdone : ∀ ns, (runOne (insertChunk (newChunk env d input index count packages))).run s₁ = (.ok ns, t) →
          t.chunks = s.chunks ++ [newChunk env d input index count packages] ∧
            ∃ ref, (persistChunk env d input index count packages).run s = (.ok ref, t) := by
        intro ns hrow
        have hrun : (persistChunk env d input index count packages).run s =
            (.ok (chunkRef env (newChunk env d input index count packages)), t) := by
          unfold persistChunk
          simp only
          rw [if_neg hsize]
          exact run_bind_ok.mpr ⟨_, _, hobject, run_bind_ok.mpr ⟨_, _, hrow, rfl⟩⟩
        exact ⟨persistChunk_ok hrun, _, hrun⟩
      rcases stops_bind.mp h with h | ⟨ns, s₂, hrow, h⟩
      · rcases runOne_stops h with rfl | ⟨n, hinsert⟩
        · exact .inl hchunks
        · exact .inr (hdone _ (runOne_ok hinsert))
      · obtain rfl := stops_done.mp h
        exact .inr (hdone ns hrow)

/-- Rows of chunks as a preparation of so many stores them. -/
def RowsOf (input : PrepareInput) (count : Nat) (rows : List ChunkRow) : Prop :=
  ∀ c ∈ rows, c.lane = input.lane ∧ c.releaseId = input.releaseId ∧ c.chunkCount = count ∧ c.status = .prepared

/-- Storing chunks stops before the last row, or has come to its end. -/
theorem storeChunks_stops {ω : RepoDraws} {input : PrepareInput} {count index : Nat} {chunks : List (List PackageRef)}
    {s t : RepoState} (h : Stops (storeChunks env ω input count index chunks) s t) :
    ∃ rows, t.chunks = s.chunks ++ rows ∧ RowsOf input count rows ∧ (rows.length < chunks.length ∨
      (rows.length = chunks.length ∧ ∃ refs, (storeChunks env ω input count index chunks).run s = (.ok refs, t))) := by
  induction chunks generalizing s index with
  | nil =>
    obtain rfl := stops_done.mp h
    exact ⟨[], (List.append_nil _).symm, by simp [RowsOf], .inr ⟨rfl, [], rfl⟩⟩
  | cons packages rest ih =>
    have hrow : RowsOf input count [newChunk env (ω (.chunk index)) input index count packages] := by
      simp [RowsOf, newChunk]
    -- the rest after the first chunk's row
    have hlater : ∀ ref s₁, (persistChunk env (ω (.chunk index)) input index count packages).run s = (.ok ref, s₁) →
        s₁.chunks = s.chunks ++ [newChunk env (ω (.chunk index)) input index count packages] →
        Stops (storeChunks env ω input count (index + 1) rest) s₁ t →
        ∃ rows, t.chunks = s.chunks ++ rows ∧ RowsOf input count rows ∧ (rows.length < (packages :: rest).length ∨
          (rows.length = (packages :: rest).length ∧
            ∃ refs, (storeChunks env ω input count index (packages :: rest)).run s = (.ok refs, t))) := by
      intro ref s₁ hfirst hchunks hrest
      obtain ⟨rows, hrows, hof, hdone⟩ := ih hrest
      refine ⟨_ :: rows, by rw [hrows, hchunks, List.append_assoc]; rfl,
        fun c hc => (List.mem_cons.mp hc).elim (fun h => hrow c (List.mem_singleton.mpr h)) (hof c), ?_⟩
      rcases hdone with hlt | ⟨heq, refs, hrun⟩
      · exact .inl (Nat.succ_lt_succ hlt)
      · exact .inr ⟨congrArg (· + 1) heq, ref :: refs, run_bind_ok.mpr ⟨ref, s₁, hfirst, run_bind_ok.mpr ⟨refs, t, hrun, rfl⟩⟩⟩
    rcases stops_bind.mp h with h | ⟨ref, s₁, hfirst, h⟩
    · rcases persistChunk_stops h with hsame | ⟨hchunks, ref, hrun⟩
      · exact ⟨[], by rw [hsame, List.append_nil], by simp [RowsOf], .inl (Nat.zero_lt_succ _)⟩
      · exact hlater ref t hrun hchunks (stops_start _ t)
    · have hchunks := persistChunk_ok hfirst
      rcases stops_bind.mp h with h | ⟨refs, s₂, hrest, h⟩
      · exact hlater ref s₁ hfirst hchunks h
      · obtain rfl := stops_done.mp h
        exact hlater ref s₁ hfirst hchunks (stops_end hrest)

/-- A run to the end stores a row for every chunk. -/
theorem storeChunks_all {ω : RepoDraws} {input : PrepareInput} {count index : Nat} {chunks : List (List PackageRef)}
    {refs : List ChunkRef} {s t : RepoState} (h : (storeChunks env ω input count index chunks).run s = (.ok refs, t)) :
    t.chunks.length = s.chunks.length + chunks.length := by
  induction chunks generalizing s index refs with
  | nil =>
    cases h
    rfl
  | cons packages rest ih =>
    obtain ⟨ref, s₁, hfirst, hrest⟩ := run_bind_ok.mp h
    obtain ⟨refs', s₂, hrest, hpure⟩ := run_bind_ok.mp hrest
    cases hpure
    rw [ih hrest, persistChunk_ok hfirst, List.length_append, List.length_cons, List.length_cons, List.length_nil]
    omega

theorem packChunks_ne_nil {done : List (List PackageRef)} {current rest : List PackageRef} {chunks : List (List PackageRef)}
    (hsome : done ≠ [] ∨ current ≠ [] ∨ rest ≠ []) (h : packChunks done current rest = .ok chunks) : chunks ≠ [] := by
  induction rest generalizing done current with
  | nil =>
    unfold packChunks at h
    cases h
    split
    · next hcurrent => exact hsome.resolve_right fun h => h.elim (absurd hcurrent) fun h => h rfl
    · simp
  | cons item rest ih =>
    unfold packChunks at h
    extract_lets full done' at h
    obtain ⟨-, h⟩ := Fallible.guard_ok.mp h
    obtain ⟨-, h⟩ := Fallible.guard_ok.mp h
    refine ih (.inr (.inl ?_)) h
    split
    · simp
    · simp

theorem ourChunks_append {input : PrepareInput} {count : Nat} {rows : List ChunkRow} {s t : RepoState}
    (hnone : ourChunks input s = []) (hof : RowsOf input count rows) (hrows : t.chunks = s.chunks ++ rows) :
    ourChunks input t = rows := by
  unfold ourChunks at hnone ⊢
  rw [hrows, List.filter_append, hnone, List.nil_append, List.filter_eq_self]
  intro c hc
  simp [(hof c hc).1, (hof c hc).2.1]

/-- Storing the chunks of a release that has none stops before the last row, or
has come to its end and stored them all. -/
theorem persistChunks_stops {ω : RepoDraws} {input : PrepareInput} {refs : List PackageRef} {s t : RepoState}
    (hnone : ourChunks input s = []) (h : Stops (persistChunks env ω input refs) s t) :
    (∀ c ∈ ourChunks input t, c.status = .prepared ∧
      ((ourChunks input t).length = c.chunkCount → ∃ refs', (persistChunks env ω input refs).run s = (.ok refs', t))) ∧
    ((∃ refs', (persistChunks env ω input refs).run s = (.ok refs', t)) → Chunked input t) := by
  unfold persistChunks at h ⊢
  split at h
  · next hrefs =>
    obtain rfl := stops_fail.mp h
    simp only [hrefs, if_true]
    refine ⟨by simp [hnone], fun ⟨refs', hrun⟩ => (nomatch (Prod.mk.inj hrun).1)⟩
  · next hrefs =>
    simp only [hrefs, if_false]
    cases hpack : packChunks [] [] refs with
    | error e =>
      rw [hpack] at h
      obtain rfl := stops_fail.mp h
      exact ⟨by simp [hnone], fun ⟨refs', hrun⟩ => (nomatch (Prod.mk.inj hrun).1)⟩
    | ok chunks =>
      rw [hpack] at h
      have hlen : 0 < chunks.length := List.length_pos_iff.mpr (packChunks_ne_nil (.inr (.inr hrefs)) hpack)
      obtain ⟨rows, hrows, hof, hdone⟩ := storeChunks_stops (show Stops (storeChunks env ω input chunks.length 0 chunks) s t from h)
      rw [Chunked, ourChunks_append hnone hof hrows]
      refine ⟨fun c hc => ⟨(hof c hc).2.2.2, fun hall => ?_⟩, fun ⟨refs', hrun⟩ => ?_⟩
      · rw [(hof c hc).2.2.1] at hall
        rcases hdone with hlt | ⟨-, hrun⟩
        · exact absurd hall (Nat.ne_of_lt hlt)
        · exact hrun
      · have hall := storeChunks_all (show (storeChunks env ω input chunks.length 0 chunks).run s = (.ok refs', t) from hrun)
        have heq : rows.length = chunks.length := by
          rw [hrows, List.length_append] at hall
          exact Nat.add_left_cancel hall
        obtain ⟨c, hc⟩ : ∃ c, c ∈ rows := List.exists_mem_of_length_pos (heq ▸ hlen)
        exact ⟨c, hc, heq.trans (hof c hc).2.2.1.symm⟩

/-! ## From the first row on -/

/-- The first repository's snapshot is stored. -/
def FirstRow (input : PrepareInput) (pair : Pair) (s : RepoState) : Prop :=
  ∃ r ∈ s.snapshots, r.lane = input.lane ∧ r.releaseId = input.releaseId ∧ r.architecture = pair.architecture ∧
    r.collection = pair.collection

theorem FirstRow.hasSnapshot {input : PrepareInput} {pair : Pair} {s : RepoState} (h : FirstRow input pair s) :
    HasSnapshot input s := by
  obtain ⟨r, hr, hlane, hrelease, -⟩ := h
  exact ⟨r, hr, hlane, hrelease⟩

section
variable {input : PrepareInput} {parents : List SnapshotRow} {pair : Pair} {rest : List Pair} {ω : RepoDraws}
  {x : List ArtifactRow × PackageRecord × SnapshotObjects} {s t : RepoState}

/-- What is stored after the first row. -/
def afterRow (env : RepositoryEnv) (input : PrepareInput) (parents : List SnapshotRow) (pair : Pair) (rest : List Pair)
    (ω : RepoDraws) (x : List ArtifactRow × PackageRecord × SnapshotObjects) : Prog RepoState PolicyError Preparation := do
  let row := newSnapshot (ω (.snapshot 0)) input pair (pairRecords x.1 pair) x.2.2
  let _ ← runEach insertSnapshotPackage (snapshotPackages row.id (pairRecords x.1 pair))
  let rows ← storeSnapshots env ω input x.1 parents x.2.1 1 rest
  let universe' ← persistUniverse env (ω .root) input x.1
  let chunks ← persistChunks env ω input universe'.2
  pure ⟨input.lane, input.releaseId, (row :: rows).map (snapshotRef env), chunks, universe'.2.length, universe'.1.id,
    universe'.1.rootSha256⟩

theorem after_eq : after env input parents pair rest ω x =
    runOne (insertSnapshot (newSnapshot (ω (.snapshot 0)) input pair (pairRecords x.1 pair) x.2.2)) >>= fun _ =>
      afterRow env input parents pair rest ω x := by
  simp only [after, afterSnapshots, storeRows, bind_assoc]
  rfl

theorem persistChunks_moves (ω : RepoDraws) (input : PrepareInput) (refs : List PackageRef) :
    Moves Packs (persistChunks env ω input refs) := by
  unfold persistChunks
  split
  · exact moves_ofExcept (.error _)
  · exact (moves_ofExcept _).bind fun chunks => storeChunks_moves _ _ _ _ chunks

theorem Packs.later (h : Packs s t) : Later s t :=
  ⟨h.toGrows, fun _ hr => h.snapshots ▸ hr, fun _ hu => h.universes ▸ hu⟩

theorem afterRow_moves : Moves Later (afterRow env input parents pair rest ω x) := by
  have hpackages : ∀ rows : List SnapshotPackage, Moves Later (runEach insertSnapshotPackage rows) := by
    intro rows
    refine moves_runEach (fun a s t n h => ?_) rows
    cases h
    exact ⟨⟨List.prefix_refl _, fun _ _ h => h⟩, fun _ hr => hr, fun _ hu => hu⟩
  refine (hpackages _).bind fun _ => ?_
  refine ((storeSnapshots_moves _ _ _ _ _ _ _).mono fun _ _ h => h.later).bind fun rows => ?_
  refine ((persistUniverse_moves _ _ _).mono fun _ _ h => h.1).bind fun universe' => ?_
  exact ((persistChunks_moves _ _ _).mono fun _ _ h => h.later).bind fun chunks => moves_ofExcept (.ok _)

/-- It stops before its first step or has stored the first row. -/
theorem after_first (h : Stops (after env input parents pair rest ω x) s t) :
    t = s ∨ (FirstRow input pair t ∧ Later s t) := by
  rw [after_eq] at h
  have hrow : ∀ u n, insertSnapshot (newSnapshot (ω (.snapshot 0)) input pair (pairRecords x.1 pair) x.2.2) s 0 = .ok (u, n) →
      FirstRow input pair u ∧ Later s u := by
    intro u n hinsert
    obtain ⟨rfl, -⟩ := insertSnapshot_ok hinsert
    exact ⟨⟨_, List.mem_append_right _ (List.mem_singleton.mpr rfl), rfl, rfl, rfl, rfl⟩,
      ⟨List.prefix_refl _, fun _ _ h => h⟩, fun _ hr => List.mem_append_left _ hr, fun _ hu => hu⟩
  rcases stops_bind.mp h with h | ⟨ns, s₁, hrun, h⟩
  · rcases runOne_stops h with h | ⟨n, hinsert⟩
    · exact .inl h
    · exact .inr (hrow t n hinsert)
  · obtain ⟨n, hinsert⟩ := runOne_run hrun
    obtain ⟨⟨r, hr, hsame⟩, hlater⟩ := hrow s₁ n hinsert
    have hmoves : Later s₁ t := afterRow_moves s₁ t h
    exact .inr ⟨⟨r, hmoves.snapshots r hr, hsame⟩, trans_of Later hlater hmoves⟩

/-- The first row cannot be stored again. -/
theorem after_again (env : RepositoryEnv) (parents : List SnapshotRow) (rest : List Pair) (ω : RepoDraws)
    (x : List ArtifactRow × PackageRecord × SnapshotObjects) (h : FirstRow input pair s) :
    (∃ e, (after env input parents pair rest ω x).run s = (.error e, s)) ∧
      ∀ t, Stops (after env input parents pair rest ω x) s t → t = s := by
  obtain ⟨r, hr, hlane, hrelease, harch, hcollection⟩ := h
  have hclash : insertSnapshot (newSnapshot (ω (.snapshot 0)) input pair (pairRecords x.1 pair) x.2.2) s 0 =
      .error ⟨"UNIQUE constraint failed: owned_repository_snapshots"⟩ := by
    unfold insertSnapshot Sql.insert
    rw [if_pos (List.any_eq_true.mpr ⟨r, hr, by simp [newSnapshot, hlane, hrelease, harch, hcollection]⟩)]
    rfl
  rw [after_eq]
  refine ⟨⟨raise ⟨"UNIQUE constraint failed: owned_repository_snapshots"⟩, ?_⟩, fun t ht => ?_⟩
  · rw [run_bind_eq, runOne_error hclash]
  · rcases stops_bind.mp ht with ht | ⟨ns, s₁, hrun, -⟩
    · rcases runOne_stops ht with h | ⟨n, hinsert⟩
      · exact h
      · rw [hclash] at hinsert
        cases hinsert
    · rw [runOne_error hclash] at hrun
      cases hrun

/-- The universe of the release is stored. -/
def HasUniverse (input : PrepareInput) (s : RepoState) : Prop :=
  ∃ u ∈ s.universes, u.lane = input.lane ∧ u.releaseId = input.releaseId ∧ u.status = .prepared

theorem ourChunks_same (h : t.chunks = s.chunks) : ourChunks input t = ourChunks input s := by
  rw [ourChunks, h, ourChunks]

theorem HasUniverse.later (h : HasUniverse input s) (hs : Later s t) : HasUniverse input t := by
  obtain ⟨u, hu, hsame⟩ := h
  exact ⟨u, hs.universes u hu, hsame⟩

/-- Chunks are stored when the universe is, and all of them only at the end. -/
theorem after_chunks (hnone : ourChunks input s = []) (h : Stops (after env input parents pair rest ω x) s t) :
    ∀ c ∈ ourChunks input t, HasUniverse input t ∧ c.status = .prepared ∧
      ((ourChunks input t).length = c.chunkCount → ∃ p, (after env input parents pair rest ω x).run s = (.ok p, t)) := by
  intro c hc
  rcases stops_bind.mp h with h | ⟨rows, s₁, hrows, h⟩
  · rw [ourChunks_same (afterSnapshots_moves _ _ _ _ _ _ _ _ h).chunks, hnone] at hc
    cases hc
  · have hnone₁ : ourChunks input s₁ = [] := by
      rw [ourChunks_same (afterSnapshots_moves _ _ _ _ _ _ _ _ (stops_end hrows)).chunks, hnone]
    rcases stops_bind.mp h with h | ⟨universe', s₂, huniverse, h⟩
    · rw [ourChunks_same (persistUniverse_moves _ _ _ _ _ h).2, hnone₁] at hc
      cases hc
    · have hnone₂ : ourChunks input s₂ = [] := by
        rw [ourChunks_same (persistUniverse_moves _ _ _ _ _ (stops_end huniverse)).2, hnone₁]
      have hchunks : Stops (persistChunks env ω input universe'.2) s₂ t := by
        rcases stops_bind.mp h with h | ⟨chunks, s₃, hchunks, h⟩
        · exact h
        · obtain rfl := stops_done.mp h
          exact stops_end hchunks
      obtain ⟨hstatus, hall⟩ := (persistChunks_stops hnone₂ hchunks).1 c hc
      have hmoves : Later s₂ t := (persistChunks_moves _ _ _ _ _ hchunks).later
      refine ⟨HasUniverse.later (persistUniverse_ok huniverse) hmoves, hstatus, fun hlen => ?_⟩
      obtain ⟨refs, hrun⟩ := hall hlen
      exact ⟨_, run_bind_ok.mpr ⟨_, _, hrows, run_bind_ok.mpr ⟨_, _, huniverse, run_bind_ok.mpr ⟨_, _, hrun, rfl⟩⟩⟩⟩

theorem after_done (hnone : ourChunks input s = []) {p : Preparation}
    (h : (after env input parents pair rest ω x).run s = (.ok p, t)) : Chunked input t := by
  obtain ⟨rows, s₁, hrows, h⟩ := run_bind_ok.mp h
  obtain ⟨universe', s₂, huniverse, h⟩ := run_bind_ok.mp h
  obtain ⟨chunks, s₃, hchunks, h⟩ := run_bind_ok.mp h
  cases h
  have hnone₂ : ourChunks input s₂ = [] := by
    rw [ourChunks_same (persistUniverse_moves _ _ _ _ _ (stops_end huniverse)).2,
      ourChunks_same (afterSnapshots_moves _ _ _ _ _ _ _ _ (stops_end hrows)).chunks, hnone]
  exact (persistChunks_stops hnone₂ (stops_end hchunks)).2 ⟨chunks, hchunks⟩

end

/-! ## Preparing again -/

theorem existingPreparation_stops {lane : OwnedLane} {release : String} {s t : RepoState}
    (h : Stops (existingPreparation env lane release) s t) : t = s := by
  rcases stops_read_bind.mp h with h | h
  · exact h
  · split at h
    · exact stops_done.mp h
    · rcases stops_read_bind.mp h with h | h
      · exact h
      · split at h
        · exact stops_fail.mp h
        · rcases stops_read_bind.mp h with h | h
          · exact h
          · split at h
            · exact stops_fail.mp h
            · exact stops_done.mp h

/-- A universe is taken for a preparation if its rows can be read and there are some. -/
theorem existingPreparation_found (env : RepositoryEnv) {lane : OwnedLane} {release : String} {s : RepoState}
    (h : releaseUniverse lane release s ≠ none) :
    ((env.takesIndex = true ∧ releaseSnapshots lane release s ≠ [] ∧ releaseChunks lane release s ≠ []) ∧
        ∃ p, (existingPreparation env lane release).run s = (.ok (some p), s)) ∨
      (¬(env.takesIndex = true ∧ releaseSnapshots lane release s ≠ [] ∧ releaseChunks lane release s ≠ []) ∧
        ∃ e, (existingPreparation env lane release).run s = (.error e, s)) := by
  obtain ⟨u, hu⟩ := Option.ne_none_iff_exists'.mp h
  unfold existingPreparation
  rw [run_read_bind, hu]
  simp only
  rw [run_read_bind]
  split
  · next hindex => exact .inr ⟨by simp [hindex], _, rfl⟩
  · next hindex =>
    rw [run_read_bind]
    split
    · next hempty => exact .inr ⟨by tauto, _, rfl⟩
    · next hrows => exact .inl ⟨⟨by simpa using hindex, by tauto, by tauto⟩, _, rfl⟩

/-- A run of a preparation, or of several that all stopped. -/
def Drawn (D : Draw → Prop) (ω : RepoDraws) : Prop := ∀ i, D (ω i)

/-- A preparation was started again and again, and each time stopped somewhere. -/
def Crashes (env : RepositoryEnv) (input : PrepareInput) (D : Draw → Prop) : RepoState → RepoState → Prop :=
  Relation.ReflTransGen fun s t => ∃ ω, Drawn D ω ∧ Stops (prepareOwnedRepositorySnapshots env input ω) s t

section
variable {rawInput input : PrepareInput} {current merged : List PackageRecord} {trusted : List ArtifactRow × List SnapshotRow}
  {pair : Pair} {rest : List Pair} {s s₀ t : RepoState}

/-- What is read for the preparation. -/
structure Plan (env : RepositoryEnv) (rawInput input : PrepareInput) (current merged : List PackageRecord)
    (trusted : List ArtifactRow × List SnapshotRow) (pair : Pair) (rest : List Pair) : Prop where
  checked : checkInput rawInput = .ok input
  selected : env.current input = .ok current
  parent : env.trusted input = .ok trusted
  all : mergeRecords env current trusted.1 = .ok merged
  small : ¬merged.length > maxPackages
  repositories : pairs input.lane = pair :: rest

/-- What a preparation that is not there yet stores. -/
theorem Plan.prepareNew_eq (h : Plan env rawInput input current merged trusted pair rest) (ω : RepoDraws) :
    prepareNew env input ω =
      before env input current merged trusted.2 pair ω >>= after env input trusted.2 pair rest ω := by
  unfold prepareNew
  rw [h.selected, h.parent, ← storePreparation_eq h.repositories]
  show (Prog.ofExcept (mergeRecords env current trusted.1) >>= fun merged => _) = _
  rw [h.all]
  exact if_neg h.small

theorem Plan.prepare_eq (h : Plan env rawInput input current merged trusted pair rest) (ω : RepoDraws) :
    prepareOwnedRepositorySnapshots env rawInput ω = existingPreparation env input.lane input.releaseId >>= fun existing =>
      match existing with
      | some preparation => pure preparation
      | none => prepareNew env input ω := by
  unfold prepareOwnedRepositorySnapshots
  rw [h.checked]
  rfl

/-- Without a universe, everything is stored again. -/
theorem Plan.prepare (h : Plan env rawInput input current merged trusted pair rest)
    (hnone : releaseUniverse input.lane input.releaseId s = none) (ω : RepoDraws) :
    Follows (prepareOwnedRepositorySnapshots env rawInput ω) s
      (before env input current merged trusted.2 pair ω >>= after env input trusted.2 pair rest ω) s := by
  have hexisting : Settled (existingPreparation env input.lane input.releaseId) none s := by
    refine ⟨?_, fun t ht => existingPreparation_stops ht⟩
    unfold existingPreparation
    rw [run_read_bind, hnone]
    rfl
  rw [← h.prepareNew_eq, h.prepare_eq]
  have hpure : (pure none : Prog RepoState PolicyError (Option Preparation)).run s = (.ok none, s) := rfl
  exact hexisting.follows (g := fun _ => prepareNew env input ω) hpure (.refl _ _)

/-- With a universe, nothing is stored. -/
theorem Plan.found (h : Plan env rawInput input current merged trusted pair rest)
    (hsome : releaseUniverse input.lane input.releaseId s ≠ none) (ω : RepoDraws) :
    (∀ t, Stops (prepareOwnedRepositorySnapshots env rawInput ω) s t → t = s) ∧
      ((∃ p t, (prepareOwnedRepositorySnapshots env rawInput ω).run s = (.ok p, t)) ↔
        env.takesIndex = true ∧ releaseSnapshots input.lane input.releaseId s ≠ [] ∧
          releaseChunks input.lane input.releaseId s ≠ []) := by
  rw [h.prepare_eq]
  rcases existingPreparation_found env hsome with ⟨hrows, p, hrun⟩ | ⟨hrows, e, hrun⟩
  · refine ⟨fun t ht => ?_, iff_of_true ⟨p, s, run_bind_ok.mpr ⟨_, _, hrun, rfl⟩⟩ hrows⟩
    rcases stops_bind.mp ht with ht | ⟨existing, s', hexisting, ht⟩
    · exact existingPreparation_stops ht
    · rw [hrun] at hexisting
      cases hexisting
      exact stops_done.mp ht
  · refine ⟨fun t ht => ?_, iff_of_false (fun ⟨p, t, hok⟩ => ?_) hrows⟩
    · rcases stops_bind.mp ht with ht | ⟨existing, s', hexisting, -⟩
      · exact existingPreparation_stops ht
      · rw [hrun] at hexisting
        cases hexisting
    · obtain ⟨existing, s', hexisting, -⟩ := run_bind_ok.mp hok
      rw [hrun] at hexisting
      cases hexisting

theorem releaseUniverse_none (h : ∀ u ∈ s.universes, ¬(u.lane = input.lane ∧ u.releaseId = input.releaseId)) :
    releaseUniverse input.lane input.releaseId s = none := by
  unfold releaseUniverse
  rw [List.find?_eq_none]
  intro u hu hp
  simp only [Bool.and_eq_true, decide_eq_true_eq] at hp
  exact h u hu hp.1

theorem HasUniverse.found (h : HasUniverse input s) : releaseUniverse input.lane input.releaseId s ≠ none := by
  obtain ⟨u, hu, hlane, hrelease, hstatus⟩ := h
  intro hnone
  have := List.find?_eq_none.mp hnone u hu
  simp [hlane, hrelease, hstatus, OwnedStatus.live] at this

section
variable (hplan : Plan env rawInput input current merged trusted pair rest) (hfresh : Untouched input s₀)
include hplan hfresh

/-- The state that a preparation of one run may stop in. -/
def StopsAt (env : RepositoryEnv) (input : PrepareInput) (current merged : List PackageRecord) (parents : List SnapshotRow)
    (pair : Pair) (rest : List Pair) (D : Draw → Prop) (s₀ s : RepoState) : Prop :=
  ∃ ω, Drawn D ω ∧ Stops (before env input current merged parents pair ω >>= after env input parents pair rest ω) s₀ s

/-- Where one run may stop: before the first row, from where another run goes the
way of one, or after it, where no run does anything. -/
theorem StopsAt.again {D : Draw → Prop} (h : StopsAt env input current merged trusted.2 pair rest D s₀ s) {ω₂ : RepoDraws}
    (hω₂ : Drawn D ω₂) :
    (Stores s₀ s ∧ ∃ ω', Drawn D ω' ∧ Follows (prepareOwnedRepositorySnapshots env rawInput ω₂) s
        (before env input current merged trusted.2 pair ω' >>= after env input trusted.2 pair rest ω') s₀) ∨
      (FirstRow input pair s ∧ (∀ t, Stops (prepareOwnedRepositorySnapshots env rawInput ω₂) s t → t = s) ∧
        ((∃ p t, (prepareOwnedRepositorySnapshots env rawInput ω₂).run s = (.ok p, t)) ↔
          releaseUniverse input.lane input.releaseId s ≠ none ∧ env.takesIndex = true ∧
            releaseSnapshots input.lane input.releaseId s ≠ [] ∧ releaseChunks input.lane input.releaseId s ≠ [])) := by
  obtain ⟨ω, hω, hstops⟩ := h
  have hbefore : Repeats D (ArtifactsFrom 0) (before env input current merged trusted.2 pair) := before_repeats _ _ _ _ _
  -- the state before the first row, which the run may have stopped in
  have hearly : Stops (before env input current merged trusted.2 pair ω) s₀ s → Stores s₀ s ∧ ∃ ω', Drawn D ω' ∧
      Follows (prepareOwnedRepositorySnapshots env rawInput ω₂) s
        (before env input current merged trusted.2 pair ω' >>= after env input trusted.2 pair rest ω') s₀ := by
    intro hstop
    have hstores : Stores s₀ s := hbefore.moves ω s₀ s hstop
    obtain ⟨ω', hω', hsame, hfollows⟩ := hbefore.resumes ω ω₂ hω hω₂ s₀ s hstop
    have hnone : releaseUniverse input.lane input.releaseId s = none :=
      releaseUniverse_none (hstores.universes ▸ hfresh.universes)
    refine ⟨hstores, ω', hω', ?_⟩
    obtain ⟨hrun, hstops⟩ := hplan.prepare hnone ω₂
    have hboth := hfollows.bind (f := after env input trusted.2 pair rest ω₂) (g := after env input trusted.2 pair rest ω')
      fun x u _ => by
        rw [after_draws (fun i hi => (hsame i hi).symm)]
        exact .refl _ _
    exact ⟨hrun.trans hboth.1, fun u hu => hboth.2 u (hstops u hu)⟩
  rcases stops_bind.mp hstops with hstop | ⟨x, s₁, hrun, hstop⟩
  · exact .inl (hearly hstop)
  · rcases after_first hstop with rfl | ⟨hrow, hlater⟩
    · exact .inl (hearly (stops_end hrun))
    · refine .inr ⟨hrow, ?_⟩
      by_cases huniverse : releaseUniverse input.lane input.releaseId s = none
      · obtain ⟨hrun₂, hstops₂⟩ := hplan.prepare huniverse ω₂
        have hsettled : Settled (before env input current merged trusted.2 pair ω₂) x s :=
          hbefore.settles ω ω₂ s₀ s₁ x hrun s hlater.toGrows
        obtain ⟨⟨e, herror⟩, hstay⟩ := after_again env trusted.2 rest ω₂ x hrow
        refine ⟨fun t ht => ?_, iff_of_false (fun ⟨p, t, hok⟩ => ?_) fun h => h.1 huniverse⟩
        · rcases stops_bind.mp (hstops₂ t ht) with ht | ⟨x', s', hx, ht⟩
          · exact hsettled.2 t ht
          · rw [hsettled.1] at hx
            cases hx
            exact hstay t ht
        · rw [hrun₂, run_bind_eq, hsettled.1] at hok
          simp only [herror] at hok
          cases hok
      · obtain ⟨hstay, hok⟩ := hplan.found huniverse ω₂
        exact ⟨hstay, hok.trans (and_iff_right huniverse).symm⟩

/-- However often it is started, a preparation stops where one run may. -/
theorem Crashes.stopsAt {D : Draw → Prop} {ω : RepoDraws} (hω : Drawn D ω) (h : Crashes env rawInput D s₀ s) :
    StopsAt env input current merged trusted.2 pair rest D s₀ s := by
  induction h with
  | refl => exact ⟨ω, hω, stops_start _ _⟩
  | tail _ hstep ih =>
    obtain ⟨ω₂, hω₂, hstops⟩ := hstep
    rcases ih.again hplan hfresh hω₂ with ⟨-, ω', hω', hfollows⟩ | ⟨-, hstay, -⟩
    · exact ⟨ω', hω', hfollows.2 _ hstops⟩
    · obtain rfl := hstay _ hstops
      exact ih

/-- A run from the start, in its two parts. -/
theorem prepare_fresh (ω : RepoDraws) :
    (prepareOwnedRepositorySnapshots env rawInput ω).run s₀ =
      (before env input current merged trusted.2 pair ω >>= after env input trusted.2 pair rest ω).run s₀ :=
  (hplan.prepare (releaseUniverse_none hfresh.universes) ω).1

omit hplan in
theorem Stores.untouched (h : Stores s₀ s) : Untouched input s :=
  ⟨h.snapshots ▸ hfresh.snapshots, h.universes ▸ hfresh.universes, h.chunks ▸ hfresh.chunks⟩

omit hplan hfresh in
theorem Untouched.ourChunks (h : Untouched input s) : ourChunks input s = [] := by
  unfold Owned.ourChunks
  rw [List.filter_eq_nil_iff]
  intro c hc hp
  simp only [Bool.and_eq_true, decide_eq_true_eq] at hp
  exact h.chunks c hc hp

/-- What a run from the start leaves has all its chunks. -/
theorem prepare_chunked {ω : RepoDraws} {p : Preparation}
    (h : (prepareOwnedRepositorySnapshots env rawInput ω).run s₀ = (.ok p, t)) : Chunked input t := by
  rw [prepare_fresh hplan hfresh] at h
  obtain ⟨x, s₁, hbefore, hafter⟩ := run_bind_ok.mp h
  have hrepeats : Repeats (fun _ => True) (ArtifactsFrom 0) (before env input current merged trusted.2 pair) :=
    before_repeats _ _ _ _ _
  have hstores : Stores s₀ s₁ := hrepeats.moves ω s₀ s₁ (stops_end hbefore)
  exact after_done (hstores.untouched hfresh).ourChunks hafter

/-- Where all chunks are stored, a run has come to its end. -/
theorem StopsAt.done {D : Draw → Prop} (h : StopsAt env input current merged trusted.2 pair rest D s₀ s)
    (hrow : HasSnapshot input s) (hchunked : Chunked input s) :
    releaseUniverse input.lane input.releaseId s ≠ none ∧ releaseSnapshots input.lane input.releaseId s ≠ [] ∧
      releaseChunks input.lane input.releaseId s ≠ [] ∧
      ∃ ω p, Drawn D ω ∧ (prepareOwnedRepositorySnapshots env rawInput ω).run s₀ = (.ok p, s) := by
  obtain ⟨ω, hω, hstops⟩ := h
  have hrepeats : Repeats D (ArtifactsFrom 0) (before env input current merged trusted.2 pair) := before_repeats _ _ _ _ _
  have hnot : ¬Stops (before env input current merged trusted.2 pair ω) s₀ s := by
    intro hstop
    obtain ⟨r, hr, hours⟩ := hrow
    exact ((hrepeats.moves ω s₀ s hstop).untouched hfresh).snapshots r hr hours
  rcases stops_bind.mp hstops with hstop | ⟨x, s₁, hrun, hstop⟩
  · exact absurd hstop hnot
  · have hstores : Stores s₀ s₁ := hrepeats.moves ω s₀ s₁ (stops_end hrun)
    obtain ⟨c, hc, hlen⟩ := hchunked
    obtain ⟨huniverse, hstatus, hdone⟩ := after_chunks (hstores.untouched hfresh).ourChunks hstop c hc
    obtain ⟨p, hp⟩ := hdone hlen
    refine ⟨huniverse.found, ?_, ?_, ω, p, hω, ?_⟩
    · obtain ⟨r, hr, hlane, hrelease⟩ := hrow
      refine List.ne_nil_of_mem (a := r) ((List.mem_insertionSort _).mpr ?_)
      simp [hr, hlane, hrelease]
    · have hmem := List.mem_filter.mp hc
      simp only [Bool.and_eq_true, decide_eq_true_eq] at hmem
      refine List.ne_nil_of_mem (a := c) ((List.mem_insertionSort _).mpr ?_)
      simp [hmem.1, hmem.2.1, hmem.2.2, hstatus, OwnedStatus.live]
    · rw [prepare_fresh hplan hfresh]
      exact run_bind_ok.mpr ⟨x, s₁, hrun, hp⟩

end

theorem checkInput_ok (h : checkInput rawInput = .ok input) : input = rawInput := by
  obtain ⟨id, hid, h⟩ := Fallible.bind_ok.mp h
  obtain ⟨value, hvalue, hid⟩ := Fallible.bind_ok.mp hid
  obtain ⟨-, hvalue⟩ := Fallible.guard_ok.mp hvalue
  obtain ⟨-, hid⟩ := Fallible.guard_ok.mp hid
  obtain ⟨-, h⟩ := Fallible.guard_ok.mp h
  cases hvalue
  cases hid
  cases h
  rfl

/-- A release that can be prepared has a plan. -/
theorem exists_plan {ω : RepoDraws} {p : Preparation} (hfresh : Untouched rawInput s₀)
    (h : (prepareOwnedRepositorySnapshots env rawInput ω).run s₀ = (.ok p, t)) :
    ∃ current merged trusted pair rest, Plan env rawInput rawInput current merged trusted pair rest := by
  obtain ⟨input, hchecked, hrun⟩ := run_ofExcept_bind_ok.mp h
  obtain rfl := checkInput_ok hchecked
  obtain ⟨existing, s₁, hexisting, h⟩ := run_bind_ok.mp hrun
  have hnone : (existingPreparation env input.lane input.releaseId).run s₀ = (.ok none, s₀) := by
    unfold existingPreparation
    rw [run_read_bind, releaseUniverse_none hfresh.universes]
    rfl
  rw [hnone] at hexisting
  cases hexisting
  obtain ⟨current, hcurrent, h⟩ := run_ofExcept_bind_ok.mp h
  obtain ⟨trusted, htrusted, h⟩ := run_ofExcept_bind_ok.mp h
  obtain ⟨merged, hmerged, h⟩ := run_ofExcept_bind_ok.mp h
  have hsmall : ¬merged.length > maxPackages := by
    intro hlarge
    rw [if_pos hlarge] at h
    cases h
  obtain ⟨pair, rest, hpairs⟩ : ∃ pair rest, pairs input.lane = pair :: rest := by
    cases input.lane <;> exact ⟨_, _, rfl⟩
  exact ⟨current, merged, trusted, pair, rest, hchecked, hcurrent, htrusted, hmerged, hsmall, hpairs⟩

end

end

/-! ## Up to the chunks -/

deriving instance DecidableEq for Evidence, PackageRef

section
variable {env : RepositoryEnv} {input : PrepareInput} {ω : RepoDraws} {refs : List PackageRef} {s : RepoState}

/-- What is stored before the chunks. -/
def beforeChunks (env : RepositoryEnv) (input : PrepareInput) (current merged : List PackageRecord)
    (parents : List SnapshotRow) (pair : Pair) (rest : List Pair) (ω : RepoDraws) :
    Prog RepoState PolicyError (List SnapshotRow × UniverseRow × List PackageRef) := do
  let x ← before env input current merged parents pair ω
  let rows ← afterSnapshots env input parents pair rest ω x
  let universe' ← persistUniverse env (ω .root) input x.1
  pure (rows, universe')

/-- It is stored, with these packages and no chunk. -/
def storesRefs (input : PrepareInput) (refs : List PackageRef) :
    Except PolicyError (List SnapshotRow × UniverseRow × List PackageRef) × RepoState → Bool
  | (.ok (_, _, refs'), s) =>
    decide (refs' = refs) && s.chunks.isEmpty && (s.objects (chunkKey input.lane input.releaseId 0)).isNone
  | (.error _, _) => false

/-- Packages that fill one chunk are stored as it. -/
theorem persistChunks_stored (hrefs : refs ≠ []) (hpack : packChunks [] [] refs = .ok [refs])
    (hsmall : (jsonBytes (chunkDocument 0 1 refs)).length ≤ maxChunkBytes)
    (hsafe : isSafeKey (chunkKey input.lane input.releaseId 0) = true) (hchunks : s.chunks = [])
    (hobject : s.objects (chunkKey input.lane input.releaseId 0) = none) :
    ∃ chunks t, (persistChunks env ω input refs).run s = (.ok chunks, t) := by
  have hkey : ¬isSafeKey (chunkKey input.lane input.releaseId 0) = false := by simp [hsafe]
  obtain ⟨ref, t, hchunk⟩ : ∃ ref t, (persistChunk env (ω (.chunk 0)) input 0 1 refs).run s = (.ok ref, t) := by
    unfold persistChunk
    simp only
    rw [if_neg (Nat.not_lt.mpr hsmall)]
    exact ⟨_, _, run_bind_ok.mpr ⟨_, _, immutableBytes_new hkey hobject, run_bind_ok.mpr ⟨_, _,
      runOne_ok (Fallible.bind_ok.mpr ⟨_, Sql.insert_ok.mpr ⟨by simp [hchunks], rfl, rfl⟩, rfl⟩), rfl⟩⟩⟩
  refine ⟨[ref], t, ?_⟩
  unfold persistChunks
  rw [if_neg hrefs, hpack]
  exact run_ofExcept_bind_ok.mpr ⟨_, rfl, run_bind_ok.mpr ⟨ref, t, hchunk, run_bind_ok.mpr ⟨[], t, rfl, rfl⟩⟩⟩

theorem prepareNew_stored {rawInput : PrepareInput} {current merged : List PackageRecord}
    {trusted : List ArtifactRow × List SnapshotRow} {pair : Pair} {rest : List Pair}
    (hplan : Plan env rawInput input current merged trusted pair rest) (hrefs : refs ≠ [])
    (hstored : storesRefs input refs ((beforeChunks env input current merged trusted.2 pair rest ω).run s) = true)
    (hpack : packChunks [] [] refs = .ok [refs]) (hsmall : (jsonBytes (chunkDocument 0 1 refs)).length ≤ maxChunkBytes)
    (hsafe : isSafeKey (chunkKey input.lane input.releaseId 0) = true) :
    ∃ p t, (prepareNew env input ω).run s = (.ok p, t) := by
  cases hrun : (beforeChunks env input current merged trusted.2 pair rest ω).run s with
  | mk result s' =>
    rw [hrun] at hstored
    cases result with
    | error e => cases hstored
    | ok stored =>
      obtain ⟨rows, row, refs'⟩ := stored
      simp only [storesRefs, Bool.and_eq_true, decide_eq_true_eq, List.isEmpty_iff, Option.isNone_iff_eq_none] at hstored
      obtain ⟨⟨rfl, hchunks⟩, hobject⟩ := hstored
      obtain ⟨chunks, t, hpersist⟩ := @persistChunks_stored env input ω _ _ hrefs hpack hsmall hsafe hchunks hobject
      obtain ⟨x, s₁, hbefore, hrun⟩ := run_bind_ok.mp hrun
      obtain ⟨rows', s₂, hrows, hrun⟩ := run_bind_ok.mp hrun
      obtain ⟨universe', s₃, huniverse, hrun⟩ := run_bind_ok.mp hrun
      cases hrun
      rw [hplan.prepareNew_eq]
      exact ⟨_, t, run_bind_ok.mpr ⟨x, s₁, hbefore, run_bind_ok.mpr ⟨rows, s₂, hrows, run_bind_ok.mpr ⟨_, s', huniverse,
        run_bind_ok.mpr ⟨chunks, t, hpersist, rfl⟩⟩⟩⟩⟩

end

/-! ## A release of one package -/

/-- A repository whose database takes the name `index`. -/
def sampleEnv : RepositoryEnv where
  origin := "https://pkg.example"
  sha256 _ := .zero
  collate a b := a ≤ b
  database _ := .ok [1]
  manifestSha256 _ := "04"
  sign _ := .ok ("signatures/a", "05")
  current _ := .ok [samplePackage]
  trusted _ := .ok ([], [])
  takesIndex := true

def sampleInput : PrepareInput := ⟨.opr, "opr-1", [], none⟩

def emptyState : RepoState := ⟨[], [], [], [], [], [], fun _ => none⟩

def sampleDraw : Draw := ⟨"id", 0⟩

theorem sampleDrawn {ω : RepoDraws} (h : Drawn (· = sampleDraw) ω) : ω = fun _ => sampleDraw := funext h

theorem sample_untouched : Untouched sampleInput emptyState :=
  ⟨by simp [emptyState], by simp [emptyState], by simp [emptyState]⟩

/-- The reference of the package. -/
def sampleRef : PackageRef := publicPackageRef sampleEnv .opr "opr-1" ⟨samplePackage, "id"⟩

/-- Stopped after `n` steps. -/
def sampleStop (n : Nat) : RepoState :=
  (prepareOwnedRepositorySnapshots sampleEnv sampleInput fun _ => sampleDraw).stop n emptyState

/-- What the release of the package comes to, and what is there when it stops around its first row. -/
structure SampleFacts : Prop where
  stored : storesRefs sampleInput [sampleRef] ((beforeChunks sampleEnv sampleInput [samplePackage] [samplePackage] []
    ⟨.omapkg, .x86_64⟩ [⟨.omapkg, .aarch64⟩] fun _ => sampleDraw).run emptyState) = true
  packed : (jsonBytes (chunkDocument 0 maxChunks [sampleRef])).length ≤ maxChunkBytes
  small : (jsonBytes (chunkDocument 0 1 [sampleRef])).length ≤ maxChunkBytes
  safe : isSafeKey (chunkKey .opr "opr-1" 0) = true
  noRow : (sampleStop 7).snapshots.isEmpty = true
  firstRow : (sampleStop 8).snapshots.any (fun r => r.lane = sampleInput.lane && r.releaseId = sampleInput.releaseId) = true
  noChunk : (sampleStop 8).chunks.isEmpty = true

theorem sampleFacts : SampleFacts := by
  constructor
  · decide +kernel
  · decide +kernel
  · decide +kernel
  · decide +kernel
  · decide +kernel
  · decide +kernel
  · decide +kernel

theorem samplePlan : Plan sampleEnv sampleInput sampleInput [samplePackage] [samplePackage] ([], []) ⟨.omapkg, .x86_64⟩
    [⟨.omapkg, .aarch64⟩] :=
  ⟨rfl, rfl, rfl, rfl, by decide, rfl⟩

theorem sample_done : ∃ p t, (prepareOwnedRepositorySnapshots sampleEnv sampleInput fun _ => sampleDraw).run
    emptyState = (.ok p, t) := by
  have hpack : packChunks [] [] [sampleRef] = .ok [[sampleRef]] := by
    have hfull : ¬maxChunkBytes < (jsonBytes (chunkDocument 0 maxChunks [sampleRef])).length :=
      Nat.not_lt.mpr sampleFacts.packed
    have hpos : maxChunks ≠ 0 := by decide
    simp [packChunks, hfull, hpos]
  rw [prepare_fresh samplePlan sample_untouched, ← samplePlan.prepareNew_eq]
  exact prepareNew_stored samplePlan (by simp) sampleFacts.stored hpack sampleFacts.small sampleFacts.safe

theorem sampleStop_crashes (n : Nat) : Crashes sampleEnv sampleInput (· = sampleDraw) emptyState (sampleStop n) :=
  .single ⟨fun _ => sampleDraw, fun _ => rfl, n, rfl⟩

theorem sample_dones (ω : RepoDraws) (hω : Drawn (· = sampleDraw) ω) :
    ∃ p t, (prepareOwnedRepositorySnapshots sampleEnv sampleInput ω).run emptyState = (.ok p, t) :=
  sampleDrawn hω ▸ sample_done

/-- However often a preparation that can be completed has stopped: running it again
leaves what a run from the start leaves just if no snapshot of the release is stored
yet, or all its chunks are and the database takes their query. -/
theorem prepare_again_iff (env : RepositoryEnv) (input : PrepareInput) (D : Draw → Prop) (s₀ s : RepoState)
    (hfresh : Untouched input s₀)
    (hdone : ∀ ω, Drawn D ω → ∃ p t, (prepareOwnedRepositorySnapshots env input ω).run s₀ = (.ok p, t))
    (hcrashes : Crashes env input D s₀ s) (ω : RepoDraws) (hω : Drawn D ω) :
    (∃ p t ω' p', Drawn D ω' ∧ (prepareOwnedRepositorySnapshots env input ω).run s = (.ok p, t) ∧
        (prepareOwnedRepositorySnapshots env input ω').run s₀ = (.ok p', t)) ↔
      ¬HasSnapshot input s ∨ (env.takesIndex = true ∧ Chunked input s) := by
  obtain ⟨p₀, t₀, hrun₀⟩ := hdone ω hω
  obtain ⟨current, merged, trusted, pair, rest, hplan⟩ := exists_plan hfresh hrun₀
  have hat := hcrashes.stopsAt hplan hfresh hω
  rcases hat.again hplan hfresh hω with ⟨hstores, ω', hω', hfollows⟩ | ⟨hrow, hstay, hok⟩
  · -- nothing but artifacts and objects is stored
    refine iff_of_true ?_ (.inl fun ⟨r, hr, hours⟩ => (hstores.untouched hfresh).snapshots r hr hours)
    obtain ⟨p, t, hrun⟩ := hdone ω' hω'
    refine ⟨p, t, ω', p, hω', ?_, hrun⟩
    rw [hfollows.1, ← prepare_fresh hplan hfresh, hrun]
  · constructor
    · rintro ⟨p, t, ω', p', hω', hrun, hrun'⟩
      obtain rfl := hstay t (stops_end hrun)
      exact .inr ⟨(hok.mp ⟨p, t, hrun⟩).2.1, prepare_chunked hplan hfresh hrun'⟩
    · rintro (hnone | ⟨hindex, hchunked⟩)
      · exact absurd hrow.hasSnapshot hnone
      · obtain ⟨huniverse, hsnapshots, hchunks, ω', p', hω', hrun'⟩ := hat.done hplan hfresh hrow.hasSnapshot hchunked
        obtain ⟨p, t, hrun⟩ := hok.mpr ⟨huniverse, hindex, hsnapshots, hchunks⟩
        obtain rfl := hstay t (stops_end hrun)
        exact ⟨p, t, ω', p', hω', hrun, hrun'⟩

/-- Stopped after its objects are stored, and before the first row, the release is prepared when run again. -/
theorem prepare_again_sample :
    ∃ p t ω' p', Drawn (· = sampleDraw) ω' ∧
      (prepareOwnedRepositorySnapshots sampleEnv sampleInput fun _ => sampleDraw).run (sampleStop 7) = (.ok p, t) ∧
      (prepareOwnedRepositorySnapshots sampleEnv sampleInput ω').run emptyState = (.ok p', t) :=
  (prepare_again_iff sampleEnv sampleInput (· = sampleDraw) emptyState (sampleStop 7) sample_untouched sample_dones
    (sampleStop_crashes 7) (fun _ => sampleDraw) fun _ => rfl).mpr (.inl fun ⟨r, hr, _⟩ => by
      have hnone : (sampleStop 7).snapshots = [] := List.isEmpty_iff.mp sampleFacts.noRow
      rw [hnone] at hr
      cases hr)

/-- Stopped right after its first snapshot row is stored, the release can never be prepared. -/
theorem prepare_again_fails :
    ¬∀ (env : RepositoryEnv) (input : PrepareInput) (D : Draw → Prop) (s₀ s : RepoState), Untouched input s₀ →
      (∀ ω, Drawn D ω → ∃ p t, (prepareOwnedRepositorySnapshots env input ω).run s₀ = (.ok p, t)) →
      Crashes env input D s₀ s → ∀ ω, Drawn D ω →
        ∃ p t ω' p', Drawn D ω' ∧ (prepareOwnedRepositorySnapshots env input ω).run s = (.ok p, t) ∧
          (prepareOwnedRepositorySnapshots env input ω').run s₀ = (.ok p', t) := by
  intro h
  obtain ⟨p, t, -, -, -, hrun, -⟩ := h sampleEnv sampleInput (· = sampleDraw) emptyState (sampleStop 8) sample_untouched
    sample_dones (sampleStop_crashes 8) (fun _ => sampleDraw) fun _ => rfl
  obtain ⟨p₀, t₀, hrun₀⟩ := sample_dones (fun _ => sampleDraw) fun _ => rfl
  obtain ⟨current, merged, trusted, pair, rest, hplan⟩ := exists_plan sample_untouched hrun₀
  have hdrawn : Drawn (· = sampleDraw) fun _ => sampleDraw := fun _ => rfl
  have hat := (sampleStop_crashes 8).stopsAt hplan sample_untouched hdrawn
  rcases hat.again hplan sample_untouched hdrawn with ⟨hstores, -⟩ | ⟨-, -, hok⟩
  · -- the first pair's row is there
    obtain ⟨r, hr, hours⟩ := List.any_eq_true.mp sampleFacts.firstRow
    rw [Bool.and_eq_true, decide_eq_true_eq, decide_eq_true_eq] at hours
    exact (hstores.untouched sample_untouched).snapshots r hr hours
  · -- and no chunk is
    have hnone := (hok.mp ⟨p, t, hrun⟩).2.2.2
    rw [releaseChunks, List.isEmpty_iff.mp sampleFacts.noChunk] at hnone
    exact hnone rfl

end Omapkg.Server.Owned
