import Omapkg.Server.FactoryRuns
/-!
# The batches of factory runs

A run and its attempts agree (`RunOk`): the attempts are numbered from one,
only the current one may be running, and it holds the run's lease. Every batch
keeps that, and a closed run as it is.
-/

namespace Omapkg.Server

open Prog

/-! ## A run with its attempts -/

def attemptsOf (s : FactoryState) (runId : String) : List FactoryAttempt := s.attempts.filter (·.runId = runId)

structure RunOk (run : FactoryRun) (attempts : List FactoryAttempt) : Prop where
  numbered : attempts.map (·.attempt) = List.range' 1 run.attemptCount
  bounded : run.attemptCount ≤ factoryMaxAttempts
  current : run.currentAttempt = if run.attemptCount = 0 then none else some run.attemptCount
  leased : ∀ a ∈ attempts, a.status = .running → run.status = .running ∧ a.attempt = run.attemptCount ∧
    run.leaseToken = some a.leaseToken ∧ run.leaseExpiresAt = some a.leaseExpiresAt
  held : run.status = .running → ∃ a ∈ attempts, a.attempt = run.attemptCount ∧ a.status = .running

namespace RunOk

variable {run run' : FactoryRun} {attempts : List FactoryAttempt} {p : FactoryAttempt → Bool}
  {f : FactoryAttempt → FactoryAttempt}

theorem attempts_nodup (h : RunOk run attempts) : (attempts.map (·.attempt)).Nodup := by
  rw [h.numbered]
  exact List.nodup_range'

theorem eq_of_attempt (h : RunOk run attempts) {a b : FactoryAttempt} (ha : a ∈ attempts) (hb : b ∈ attempts)
    (hab : a.attempt = b.attempt) : a = b :=
  List.inj_on_of_nodup_map h.attempts_nodup ha hb hab

theorem attempt_pos (h : RunOk run attempts) {a : FactoryAttempt} (ha : a ∈ attempts) : 1 ≤ a.attempt := by
  have hmem : a.attempt ∈ attempts.map (·.attempt) := List.mem_map_of_mem ha
  rw [h.numbered, List.mem_range'_1] at hmem
  exact hmem.1

theorem attempt_le (h : RunOk run attempts) {a : FactoryAttempt} (ha : a ∈ attempts) :
    a.attempt ≤ run.attemptCount := by
  have hmem : a.attempt ∈ attempts.map (·.attempt) := List.mem_map_of_mem ha
  rw [h.numbered, List.mem_range'_1] at hmem
  omega

/-- The attempt that is running is the current one. -/
theorem current_of_running (h : RunOk run attempts) {a : FactoryAttempt} (ha : a ∈ attempts)
    (hrunning : a.status = .running) : run.currentAttempt = some a.attempt := by
  obtain ⟨-, hlast, -⟩ := h.leased a ha hrunning
  have hpos := h.attempt_pos ha
  rw [h.current, if_neg (by omega), hlast]

theorem running_unique (h : RunOk run attempts) {a b : FactoryAttempt} (ha : a ∈ attempts) (hb : b ∈ attempts)
    (hra : a.status = .running) (hrb : b.status = .running) : a = b :=
  h.eq_of_attempt ha hb ((h.leased a ha hra).2.1.trans (h.leased b hb hrb).2.1.symm)

/-- The run is running exactly when its current attempt is. -/
theorem running_iff (h : RunOk run attempts) :
    run.status = .running ↔ ∃ a ∈ attempts, run.currentAttempt = some a.attempt ∧ a.status = .running := by
  constructor
  · intro hrunning
    obtain ⟨a, ha, -, hra⟩ := h.held hrunning
    exact ⟨a, ha, h.current_of_running ha hra, hra⟩
  · rintro ⟨a, ha, -, hra⟩
    exact (h.leased a ha hra).1

/-- At most one attempt is running. -/
theorem countP_running (h : RunOk run attempts) : attempts.countP (·.status = .running) ≤ 1 := by
  have hle := Sql.update_le_one (p := fun a => a.status = .running && a.attempt = run.attemptCount) (f := id)
    h.attempts_nodup (k := run.attemptCount) (by simp)
  refine le_of_eq_of_le (List.countP_congr fun a ha => ?_) hle
  simp only [decide_eq_true_eq, Bool.and_eq_true, iff_self_and]
  exact fun hra => (h.leased a ha hra).2.1

/-- Ending whatever is running leaves nothing running. -/
theorem close (h : RunOk run attempts) (hcount : run'.attemptCount = run.attemptCount)
    (hcurrent : run'.currentAttempt = run.currentAttempt) (hstatus : run'.status ≠ .running)
    (hall : ∀ a ∈ attempts, a.status = .running → p a = true) (hattempt : ∀ a, (f a).attempt = a.attempt)
    (hended : ∀ a, (f a).status ≠ .running) : RunOk run' (Sql.update p f attempts).1 where
  numbered := by
    rw [Sql.map_update fun a _ => hattempt a, h.numbered, hcount]
  bounded := hcount ▸ h.bounded
  current := by rw [hcurrent, h.current, hcount]
  leased b hb hrb := by
    obtain ⟨a, ha, rfl⟩ := Sql.mem_update.mp hb
    by_cases hp : p a
    · simp only [hp, if_true] at hrb
      exact absurd hrb (hended a)
    · simp only [hp, Bool.false_eq_true, if_false] at hrb
      exact absurd (hall a ha hrb) hp
  held hrunning := absurd hrunning hstatus

/-- The next attempt of a queued run. -/
theorem reserve (h : RunOk run attempts) (hstatus : run.status = .queued)
    (hroom : run.attemptCount < factoryMaxAttempts) {row : FactoryAttempt} (hnext : row.attempt = run.attemptCount + 1)
    (hrow : row.status = .running) (hcount : run'.attemptCount = row.attempt)
    (hcurrent : run'.currentAttempt = some row.attempt) (hstatus' : run'.status = .running)
    (htoken : run'.leaseToken = some row.leaseToken) (hexpires : run'.leaseExpiresAt = some row.leaseExpiresAt) :
    RunOk run' (attempts ++ [row]) where
  numbered := by
    rw [List.map_append, h.numbered, hcount, hnext, List.range'_1_concat, List.map_singleton, hnext, Nat.add_comm]
  bounded := by
    rw [hcount, hnext]
    exact hroom
  current := by rw [hcurrent, hcount, if_neg (by omega)]
  leased a ha hra := by
    rcases List.mem_append.mp ha with ha | ha
    · have hrunning := (h.leased a ha hra).1
      rw [hstatus] at hrunning
      cases hrunning
    · obtain rfl := List.mem_singleton.mp ha
      exact ⟨hstatus', hcount.symm, htoken, hexpires⟩
  held _ := ⟨row, by simp, hcount.symm, hrow⟩

/-- Both leases are extended together. -/
theorem renew (h : RunOk run attempts) {expires : Int} (hcount : run'.attemptCount = run.attemptCount)
    (hcurrent : run'.currentAttempt = run.currentAttempt) (hstatus : run'.status = run.status)
    (htoken : run'.leaseToken = run.leaseToken) (hexpires : run'.leaseExpiresAt = some expires)
    (hall : ∀ a ∈ attempts, a.status = .running → p a = true) (hattempt : ∀ a, (f a).attempt = a.attempt)
    (hsame : ∀ a, (f a).status = a.status ∧ (f a).leaseToken = a.leaseToken ∧ (f a).leaseExpiresAt = expires) :
    RunOk run' (Sql.update p f attempts).1 where
  numbered := by
    rw [Sql.map_update fun a _ => hattempt a, h.numbered, hcount]
  bounded := hcount ▸ h.bounded
  current := by rw [hcurrent, h.current, hcount]
  leased b hb hrb := by
    obtain ⟨a, ha, rfl⟩ := Sql.mem_update.mp hb
    obtain ⟨hstat, htok, hexp⟩ := hsame a
    have hra : a.status = .running := by
      by_cases hp : p a <;> simp only [hp, if_true, if_false, Bool.false_eq_true] at hrb
      · rwa [hstat] at hrb
      · exact hrb
    obtain ⟨hrunning, hlast, htoken', -⟩ := h.leased a ha hra
    simp only [hall a ha hra, if_true]
    refine ⟨hstatus.trans hrunning, ?_, ?_, ?_⟩
    · rw [hattempt, hlast, hcount]
    · rw [htoken, htoken', htok]
    · rw [hexpires, hexp]
  held hrunning := by
    obtain ⟨a, ha, hlast, hra⟩ := h.held (hstatus ▸ hrunning)
    refine ⟨f a, Sql.mem_update.mpr ⟨a, ha, by simp [hall a ha hra]⟩, ?_, ?_⟩
    · rw [hattempt, hlast, hcount]
    · rw [(hsame a).1, hra]

/-- What is not looked at may change. -/
theorem same (h : RunOk run attempts) (hsame : ∀ a, (f a).attempt = a.attempt ∧ (f a).status = a.status ∧
    (f a).leaseToken = a.leaseToken ∧ (f a).leaseExpiresAt = a.leaseExpiresAt) :
    RunOk run (Sql.update p f attempts).1 where
  numbered := by
    rw [Sql.map_update fun a _ => (hsame a).1, h.numbered]
  bounded := h.bounded
  current := h.current
  leased b hb hrb := by
    obtain ⟨a, ha, rfl⟩ := Sql.mem_update.mp hb
    obtain ⟨h₁, h₂, h₃, h₄⟩ := hsame a
    by_cases hp : p a
    · simp only [hp, if_true, h₁, h₂, h₃, h₄] at hrb ⊢
      exact h.leased a ha hrb
    · simp only [hp, if_false, Bool.false_eq_true] at hrb ⊢
      exact h.leased a ha hrb
  held hrunning := by
    obtain ⟨a, ha, hlast, hra⟩ := h.held hrunning
    refine ⟨if p a then f a else a, Sql.mem_update.mpr ⟨a, ha, rfl⟩, ?_⟩
    by_cases hp : p a <;> simp [hp, hsame, hlast, hra]

end RunOk

/-! ## The tables -/

/-- Ids are unique, attempts belong to runs, and each run agrees with its attempts. -/
structure FactoryOk (s : FactoryState) : Prop where
  ids : (s.runs.map (·.id)).Nodup
  owned : ∀ a ∈ s.attempts, ∃ run ∈ s.runs, run.id = a.runId
  runs : ∀ run ∈ s.runs, RunOk run (attemptsOf s run.id)

/-- What a step of a request does to the tables: a closed run stays as it is,
no attempt is lost, and what is taken is a new attempt. -/
structure Advance (me : Option Nat) (s s' : FactoryState) : Prop where
  closed : ∀ run ∈ s.runs, isOpen run.status = false → run ∈ s'.runs
  kept : ∀ a ∈ s.attempts, ∃ b ∈ s'.attempts, b.runId = a.runId ∧ b.attempt = a.attempt
  executed : s'.executed = s.executed
  resumed : s'.resumed = s.resumed
  taken : s'.taken = s.taken ∨ ∃ n runId k, me = some n ∧ s'.taken = (n, runId, k) :: s.taken ∧
    (∀ a ∈ s.attempts, ¬(a.runId = runId ∧ a.attempt = k)) ∧ ∃ a ∈ s'.attempts, a.runId = runId ∧ a.attempt = k

instance (me : Option Nat) : Std.Refl (Advance me) :=
  ⟨fun _ => ⟨fun _ h _ => h, fun a h => ⟨a, h, rfl, rfl⟩, rfl, rfl, .inl rfl⟩⟩

theorem FactoryOk.eq_of_id {s : FactoryState} (h : FactoryOk s) {run run' : FactoryRun} (hrun : run ∈ s.runs)
    (hrun' : run' ∈ s.runs) (hid : run.id = run'.id) : run = run' :=
  List.inj_on_of_nodup_map h.ids hrun hrun' hid

theorem mem_attemptsOf {s : FactoryState} {runId : String} {a : FactoryAttempt} :
    a ∈ attemptsOf s runId ↔ a ∈ s.attempts ∧ a.runId = runId := by
  simp [attemptsOf]

/-- An update of one run and of its attempts. -/
structure UpdatesRun (runId : String) (p : FactoryAttempt → Bool) (f : FactoryAttempt → FactoryAttempt)
    (q : FactoryRun → Bool) (g : FactoryRun → FactoryRun) : Prop where
  attempts : ∀ a, p a = true → a.runId = runId
  runs : ∀ run, q run = true → run.id = runId ∧ isOpen run.status = true
  sameAttempt : ∀ a, (f a).runId = a.runId ∧ (f a).attempt = a.attempt
  sameRun : ∀ run, (g run).id = run.id

/-- The tables agree after an update of one run, if the run does. -/
theorem FactoryOk.update {s s' : FactoryState} {runId : String} {p : FactoryAttempt → Bool}
    {f : FactoryAttempt → FactoryAttempt} {q : FactoryRun → Bool} {g : FactoryRun → FactoryRun} (h : FactoryOk s)
    (hu : UpdatesRun runId p f q g) (hattempts : s'.attempts = (Sql.update p f s.attempts).1)
    (hruns : s'.runs = (Sql.update q g s.runs).1)
    (hrun : ∀ run ∈ s.runs, run.id = runId → RunOk run (attemptsOf s runId) →
      RunOk (if q run then g run else run) (Sql.update p f (attemptsOf s runId)).1) : FactoryOk s' where
  ids := by
    rw [hruns, Sql.map_update fun run _ => hu.sameRun run]
    exact h.ids
  owned b hb := by
    rw [hattempts] at hb
    obtain ⟨a, ha, rfl⟩ := Sql.mem_update.mp hb
    obtain ⟨run, hmem, hid⟩ := h.owned a ha
    refine ⟨if q run then g run else run, ?_, ?_⟩
    · rw [hruns]
      exact Sql.mem_update.mpr ⟨run, hmem, rfl⟩
    · by_cases hq : q run <;> by_cases hp : p a <;> simp [hq, hp, hu.sameRun, hu.sameAttempt, hid]
  runs run' hrun' := by
    rw [hruns] at hrun'
    obtain ⟨run, hmem, rfl⟩ := Sql.mem_update.mp hrun'
    have hid : (if q run then g run else run).id = run.id := by
      by_cases hq : q run <;> simp [hq, hu.sameRun]
    have hof : attemptsOf s' run.id = (Sql.update p f (attemptsOf s run.id)).1 := by
      unfold attemptsOf
      rw [hattempts, Sql.filter_update fun a _ => by rw [(hu.sameAttempt a).1]]
    rw [hid, hof]
    by_cases hthis : run.id = runId
    · rw [hthis]
      exact hrun run hmem hthis (hthis ▸ h.runs run hmem)
    · have hq : q run = false := by
        by_contra hq
        exact hthis (hu.runs run (by simpa using hq)).1
      rw [hq, Sql.update_none fun a ha => ?_]
      · exact h.runs run hmem
      · by_contra hp
        exact hthis ((mem_attemptsOf.mp ha).2.symm.trans (hu.attempts a (by simpa using hp)))

theorem Advance.update {me : Option Nat} {s s' : FactoryState} {runId : String} {p : FactoryAttempt → Bool}
    {f : FactoryAttempt → FactoryAttempt} {q : FactoryRun → Bool} {g : FactoryRun → FactoryRun}
    (hu : UpdatesRun runId p f q g) (hattempts : s'.attempts = (Sql.update p f s.attempts).1)
    (hruns : s'.runs = (Sql.update q g s.runs).1) (hexecuted : s'.executed = s.executed)
    (hresumed : s'.resumed = s.resumed) (htaken : s'.taken = s.taken) : Advance me s s' where
  closed run hmem hclosed := by
    rw [hruns]
    refine Sql.mem_update.mpr ⟨run, hmem, ?_⟩
    have hq : q run = false := by
      by_contra hq
      have hopen := (hu.runs run (by simpa using hq)).2
      rw [hclosed] at hopen
      cases hopen
    simp [hq]
  kept a ha := by
    refine ⟨if p a then f a else a, ?_, ?_⟩
    · rw [hattempts]
      exact Sql.mem_update.mpr ⟨a, ha, rfl⟩
    · by_cases hp : p a <;> simp [hp, hu.sameAttempt]
  executed := hexecuted
  resumed := hresumed
  taken := .inl htaken

/-! ## Batches -/

theorem updateAttempts_ok {p : FactoryState → FactoryAttempt → Bool} {f : FactoryAttempt → FactoryAttempt}
    {s s' : FactoryState} {n k : Nat} : updateAttempts p f s n = .ok (s', k) ↔
      s' = { s with attempts := (Sql.update (p s) f s.attempts).1 } ∧ k = (Sql.update (p s) f s.attempts).2 := by
  simp only [updateAttempts, Except.ok.injEq, Prod.mk.injEq]
  exact and_congr eq_comm eq_comm

theorem updateRuns_ok {p : FactoryState → Nat → FactoryRun → Bool} {f : FactoryRun → FactoryRun}
    {s s' : FactoryState} {n k : Nat} : updateRuns p f s n = .ok (s', k) ↔
      s' = { s with runs := (Sql.update (p s n) f s.runs).1 } ∧ k = (Sql.update (p s n) f s.runs).2 := by
  simp only [updateRuns, Except.ok.injEq, Prod.mk.injEq]
  exact and_congr eq_comm eq_comm

theorem cancelBuilds_ok {p : FactoryState → FactoryBuild → Bool} {s s' : FactoryState} {n k : Nat}
    (h : cancelBuilds p s n = .ok (s', k)) : ∃ builds, s' = { s with builds } := by
  cases h
  exact ⟨_, rfl⟩

theorem cancelImageJobs_ok {p : FactoryState → FactoryImageJob → Bool} {error : Utf.CodeUnits} {timestamp : Int}
    {s s' : FactoryState} {n k : Nat} (h : cancelImageJobs p error timestamp s n = .ok (s', k)) :
    ∃ imageJobs, s' = { s with imageJobs } := by
  unfold cancelImageJobs at h
  split at h
  · cases h
  · cases h
    exact ⟨_, rfl⟩

/-- A statement that only touches builds and image jobs. -/
def Cancels (statement : Sql.Statement FactoryState) : Prop :=
  ∀ s n s' k, statement s n = .ok (s', k) → ∃ builds imageJobs, s' = { s with builds, imageJobs }

theorem cancelBuilds_cancels (p : FactoryState → FactoryBuild → Bool) : Cancels (cancelBuilds p) := by
  intro s n s' k h
  obtain ⟨builds, rfl⟩ := cancelBuilds_ok h
  exact ⟨builds, s.imageJobs, rfl⟩

theorem cancelImageJobs_cancels (p : FactoryState → FactoryImageJob → Bool) (error : JsString) (timestamp : Int) :
    Cancels (cancelImageJobs p error timestamp) := by
  intro s n s' k h
  obtain ⟨imageJobs, rfl⟩ := cancelImageJobs_ok h
  exact ⟨s.builds, imageJobs, rfl⟩

theorem runAll_cancels {statements rest : List (Sql.Statement FactoryState)} (hquiet : ∀ q ∈ statements, Cancels q)
    {s s' : FactoryState} {n : Nat} {ns : List Nat} (h : Sql.runAll (statements ++ rest) s n = .ok (s', ns)) :
    ∃ builds imageJobs m ms, Sql.runAll rest { s with builds, imageJobs } m = .ok (s', ms) := by
  induction statements generalizing s n ns with
  | nil => exact ⟨s.builds, s.imageJobs, n, ns, h⟩
  | cons q statements ih =>
    rw [List.cons_append, Sql.runAll_cons_ok] at h
    obtain ⟨s₁, n₁, ns₁, hq, hrest, -⟩ := h
    obtain ⟨builds, imageJobs, rfl⟩ := hquiet q List.mem_cons_self s n s₁ n₁ hq
    obtain ⟨builds', imageJobs', m, ms, h⟩ := ih (fun q hq => hquiet q (List.mem_cons_of_mem _ hq)) hrest
    exact ⟨builds', imageJobs', m, ms, h⟩

/-- The attempt of an open run that a stop ends. -/
theorem openAttempt_eq {s : FactoryState} (h : FactoryOk s) {run : FactoryRun} (hrun : run ∈ s.runs)
    (hopen : isOpen run.status = true) : openAttempt run.id s = run.currentAttempt := by
  have hfind : s.runs.find? (fun r => r.id = run.id && isOpen r.status) = some run := by
    rcases hfound : s.runs.find? fun r => r.id = run.id && isOpen r.status with _ | r
    · have hnone := List.find?_eq_none.mp hfound run hrun
      simp [hopen] at hnone
    · have hr := List.find?_some hfound
      simp only [Bool.and_eq_true, decide_eq_true_eq] at hr
      rw [hfound, h.eq_of_id (List.mem_of_find?_eq_some hfound) hrun hr.1]
  rw [openAttempt, hfind]
  rfl

theorem isOpen_of_running {status : FactoryRunStatus} (h : status = .running) : isOpen status = true := by
  rw [h]
  rfl

theorem stopBatch_ok {runId : String} {reason : JsString} {kind : FactoryFailureKind} {failure : Json JsString}
    {imageJobs : Bool} {timestamp : Int} {s s' : FactoryState} {n : Nat} {ns : List Nat} {me : Option Nat}
    (h : FactoryOk s) (hbatch : Sql.runAll (stopBatch runId reason kind failure imageJobs timestamp) s n = .ok (s', ns)) :
    FactoryOk s' ∧ Advance me s s' := by
  unfold stopBatch at hbatch
  simp only [List.cons_append, List.nil_append] at hbatch
  obtain ⟨s₁, n₁, ns₁, hfirst, hbatch, -⟩ := Sql.runAll_cons_ok.mp hbatch
  obtain ⟨rfl, -⟩ := updateAttempts_ok.mp hfirst
  rw [← List.cons_append] at hbatch
  obtain ⟨builds, jobs, m, ms, hlast⟩ := runAll_cancels (by
    intro q hq
    rcases List.mem_cons.mp hq with rfl | hq
    · exact cancelBuilds_cancels _
    · split at hq
      · obtain rfl := List.mem_singleton.mp hq
        exact cancelImageJobs_cancels _ _ _
      · cases hq) hbatch
  obtain ⟨s₂, n₂, ns₂, hruns, hnil, -⟩ := Sql.runAll_cons_ok.mp hlast
  obtain ⟨rfl, -⟩ := updateRuns_ok.mp hruns
  obtain ⟨rfl, -⟩ := Sql.runAll_nil_ok.mp hnil
  have hu : UpdatesRun runId
      (fun a => a.runId = runId && openAttempt runId s = some a.attempt && a.status = .running)
      (fun a => { a with status := .failed, failureKind := some kind, failure := some failure,
                         finishedAt := some timestamp, leaseExpiresAt := timestamp, updatedAt := timestamp })
      (fun run => run.id = runId && isOpen run.status)
      (fun run => { run with status := .needsHumanIntervention, failure := some failure, leaseToken := none,
                             leaseExpiresAt := none, updatedAt := timestamp }) :=
    ⟨fun a ha => by simp only [Bool.and_eq_true, decide_eq_true_eq] at ha; exact ha.1.1,
      fun run hrun => by simpa using hrun, fun _ => ⟨rfl, rfl⟩, fun _ => rfl⟩
  refine ⟨h.update hu rfl rfl fun run hrun hid hok => ?_, .update hu rfl rfl rfl rfl rfl⟩
  have hcovers : ∀ a ∈ attemptsOf s runId, a.status = .running →
      (a.runId = runId && openAttempt runId s = some a.attempt && a.status = .running) = true := by
    intro a ha hra
    have hopen := isOpen_of_running (hok.leased a ha hra).1
    simp only [Bool.and_eq_true, decide_eq_true_eq]
    refine ⟨⟨(mem_attemptsOf.mp ha).2, ?_⟩, hra⟩
    rw [← hid, openAttempt_eq h hrun hopen, hok.current_of_running ha hra]
  by_cases hopen : isOpen run.status = true
  · simp only [hid, hopen, decide_true, Bool.and_self, if_true]
    exact hok.close rfl rfl (by simp) hcovers (fun _ => rfl) (by simp)
  · simp only [hopen, Bool.and_false, Bool.false_eq_true, if_false]
    refine hok.close rfl rfl (fun hrunning => hopen (isOpen_of_running hrunning)) hcovers (fun _ => rfl) (by simp)

/-- Rows of one run are counted among its attempts. -/
theorem update_count {s : FactoryState} {runId : String} {p : FactoryAttempt → Bool}
    {f : FactoryAttempt → FactoryAttempt} (hp : ∀ a, p a = true → a.runId = runId) :
    (Sql.update p f s.attempts).2 = (Sql.update p f (attemptsOf s runId)).2 := by
  rw [Sql.update, Sql.update, attemptsOf, List.countP_filter]
  refine List.countP_congr fun a _ => ?_
  simpa using hp a

theorem renewBatch_ok {runId : String} {attempt : Nat} {leaseToken : String} {timestamp expires : Int}
    {s s' : FactoryState} {n : Nat} {ns : List Nat} {me : Option Nat} (h : FactoryOk s)
    (hbatch : Sql.runAll (renewBatch runId attempt leaseToken timestamp expires) s n = .ok (s', ns)) :
    FactoryOk s' ∧ Advance me s s' := by
  obtain ⟨s₁, n₁, ns₁, hfirst, hbatch, -⟩ := Sql.runAll_cons_ok.mp hbatch
  obtain ⟨rfl, rfl⟩ := updateAttempts_ok.mp hfirst
  obtain ⟨s₂, n₂, ns₂, hruns, hnil, -⟩ := Sql.runAll_cons_ok.mp hbatch
  obtain ⟨rfl, -⟩ := updateRuns_ok.mp hruns
  obtain ⟨rfl, -⟩ := Sql.runAll_nil_ok.mp hnil
  generalize hp : (fun a : FactoryAttempt => a.runId = runId && a.attempt = attempt && a.leaseToken = leaseToken &&
    a.status = .running && a.leaseExpiresAt > timestamp && s.runs.any fun run => run.id = runId &&
      run.currentAttempt = some attempt && run.leaseToken = some leaseToken && run.status = .running &&
      run.leaseExpiresAt.any (· > timestamp)) = p
  have hmatch : ∀ a, p a = true → a.runId = runId ∧ a.attempt = attempt ∧ a.leaseToken = leaseToken ∧
      a.status = .running := by
    intro a ha
    rw [← hp] at ha
    simp only [Bool.and_eq_true, decide_eq_true_eq] at ha
    exact ⟨ha.1.1.1.1.1, ha.1.1.1.1.2, ha.1.1.1.2, ha.1.1.2⟩
  have hu : UpdatesRun runId p (fun a => { a with leaseExpiresAt := expires, updatedAt := timestamp })
      (fun run => run.id = runId && run.currentAttempt = some attempt && run.leaseToken = some leaseToken &&
        run.status = .running &&
        (Sql.update p (fun a => { a with leaseExpiresAt := expires, updatedAt := timestamp }) s.attempts).2 = 1)
      (fun run => { run with leaseExpiresAt := some expires, updatedAt := timestamp }) := by
    refine ⟨fun a ha => (hmatch a ha).1, fun run hrun => ?_, fun _ => ⟨rfl, rfl⟩, fun _ => rfl⟩
    simp only [Bool.and_eq_true, decide_eq_true_eq] at hrun
    exact ⟨hrun.1.1.1.1, isOpen_of_running hrun.1.2⟩
  refine ⟨h.update hu rfl rfl fun run hrun hid hok => ?_, .update hu rfl rfl rfl rfl rfl⟩
  rw [update_count fun a ha => (hmatch a ha).1]
  by_cases hany : ∃ a ∈ attemptsOf s runId, p a = true
  · obtain ⟨a, ha, hpa⟩ := hany
    obtain ⟨-, hattempt, htoken, hra⟩ := hmatch a hpa
    obtain ⟨hrunning, -, htoken', -⟩ := hok.leased a ha hra
    have hone : (Sql.update p (fun a => { a with leaseExpiresAt := expires, updatedAt := timestamp })
        (attemptsOf s runId)).2 = 1 := by
      refine le_antisymm (Sql.update_le_one hok.attempts_nodup fun a _ ha => (hmatch a ha).2.1) ?_
      exact List.countP_pos_iff.mpr ⟨a, ha, hpa⟩
    have hcurrent := hok.current_of_running ha hra
    rw [hattempt] at hcurrent
    rw [htoken] at htoken'
    simp only [hid, hcurrent, htoken', hrunning, hone, decide_true, Bool.and_self, if_true]
    refine hok.renew rfl hcurrent.symm hrunning.symm htoken'.symm rfl (fun b hb hrb => ?_) (fun _ => rfl) fun _ => ⟨rfl, rfl, rfl⟩
    rw [hok.running_unique hb ha hrb hra]
    exact hpa
  · have hnone : ∀ a ∈ attemptsOf s runId, p a = false := by
      intro a ha
      by_contra hpa
      exact hany ⟨a, ha, by simpa using hpa⟩
    rw [Sql.update_none hnone]
    simpa using hok

theorem endBatch_ok {runId : String} {attempt : Nat} {leaseToken : String} {result : FactoryAttemptResult}
    {timestamp : Int} {s s' : FactoryState} {n : Nat} {ns : List Nat} {me : Option Nat} (h : FactoryOk s)
    (hbatch : Sql.runAll (endBatch runId attempt leaseToken result timestamp) s n = .ok (s', ns)) :
    FactoryOk s' ∧ Advance me s s' := by
  obtain ⟨s₁, n₁, ns₁, hfirst, hbatch, -⟩ := Sql.runAll_cons_ok.mp hbatch
  obtain ⟨rfl, rfl⟩ := updateAttempts_ok.mp hfirst
  obtain ⟨s₂, n₂, ns₂, hruns, hnil, -⟩ := Sql.runAll_cons_ok.mp hbatch
  obtain ⟨rfl, -⟩ := updateRuns_ok.mp hruns
  obtain ⟨rfl, -⟩ := Sql.runAll_nil_ok.mp hnil
  generalize hp : (fun a : FactoryAttempt => a.runId = runId && a.attempt = attempt && a.status = .running &&
    a.leaseToken = leaseToken && a.leaseExpiresAt > timestamp) = p
  generalize hf : (fun a : FactoryAttempt => { a with
    status := result.outcome.status, failureKind := result.failureKind, failure := result.failure.map column,
    artifact := result.artifact.map column, finishedAt := some timestamp, leaseExpiresAt := timestamp,
    updatedAt := timestamp }) = f
  have hmatch : ∀ a, p a = true → a.runId = runId ∧ a.attempt = attempt ∧ a.leaseToken = leaseToken ∧
      a.status = .running := by
    intro a ha
    rw [← hp] at ha
    simp only [Bool.and_eq_true, decide_eq_true_eq] at ha
    exact ⟨ha.1.1.1.1, ha.1.1.1.2, ha.1.2, ha.1.1.2⟩
  have hended : result.outcome.status ≠ .running := by
    cases result.outcome <;> simp [FactoryOutcome.status]
  have hsame : ∀ a, (f a).runId = a.runId ∧ (f a).attempt = a.attempt ∧ (f a).leaseToken = a.leaseToken ∧
      (f a).status = result.outcome.status := by
    rw [← hf]
    exact fun _ => ⟨rfl, rfl, rfl, rfl⟩
  have hu : UpdatesRun runId p f
      (fun run => run.id = runId && run.status = .running && run.currentAttempt = some attempt &&
        run.leaseToken = some leaseToken &&
        (Sql.update p f s.attempts).1.any fun a => a.runId = runId && a.attempt = attempt &&
          a.status = result.outcome.status && a.leaseToken = leaseToken)
      (fun run => { run with
        status := runStatusAfter attempt result
        successfulAttempt := if result.outcome = .succeeded then some attempt else none
        artifact := if result.outcome = .succeeded then result.artifact.map column else none
        failure := runFailure result
        leaseToken := none, leaseExpiresAt := none, updatedAt := timestamp }) := by
    refine ⟨fun a ha => (hmatch a ha).1, fun run hrun => ?_, fun a => ⟨(hsame a).1, (hsame a).2.1⟩, fun _ => rfl⟩
    simp only [Bool.and_eq_true, decide_eq_true_eq] at hrun
    exact ⟨hrun.1.1.1.1, isOpen_of_running hrun.1.1.1.2⟩
  refine ⟨h.update hu rfl rfl fun run hrun hid hok => ?_, .update hu rfl rfl rfl rfl rfl⟩
  by_cases hany : ∃ a ∈ attemptsOf s runId, p a = true
  · obtain ⟨a, ha, hpa⟩ := hany
    obtain ⟨hrunId, hattempt, htoken, hra⟩ := hmatch a hpa
    obtain ⟨hrunning, -, htoken', -⟩ := hok.leased a ha hra
    have hcurrent := hok.current_of_running ha hra
    rw [hattempt] at hcurrent
    rw [htoken] at htoken'
    have hended' : ((Sql.update p f s.attempts).1.any fun a => a.runId = runId && a.attempt = attempt &&
        a.status = result.outcome.status && a.leaseToken = leaseToken) = true := by
      refine List.any_eq_true.mpr ⟨f a, Sql.mem_update.mpr ⟨a, (mem_attemptsOf.mp ha).1, by simp [hpa]⟩, ?_⟩
      obtain ⟨h₁, h₂, h₃, h₄⟩ := hsame a
      simp [h₁, h₂, h₃, h₄, hrunId, hattempt, htoken]
    simp only [hid, hcurrent, htoken', hrunning, hended', decide_true, Bool.and_self, if_true]
    refine hok.close rfl hcurrent.symm ?_ (fun b hb hrb => ?_) (fun a => (hsame a).2.1)
      fun a => (hsame a).2.2.2 ▸ hended
    · unfold runStatusAfter
      cases result.outcome
      · simp
      · split
        · simp
        · split <;> simp
    · rw [hok.running_unique hb ha hrb hra]
      exact hpa
  · have hnone : ∀ a ∈ attemptsOf s runId, p a = false := by
      intro a ha
      by_contra hpa
      exact hany ⟨a, ha, by simpa using hpa⟩
    rw [Sql.update_none hnone, if_neg ?_]
    · exact hok
    -- a run whose attempt did not end here is not under this lease any more
    · intro hq
      simp only [Bool.and_eq_true, decide_eq_true_eq, List.any_eq_true] at hq
      obtain ⟨⟨⟨⟨-, hrunning⟩, hcurrent⟩, -⟩, b, hb, ⟨⟨hbrun, hbattempt⟩, hbstatus⟩, -⟩ := hq
      obtain ⟨a, ha, hlast, hra⟩ := hok.held hrunning
      obtain ⟨c, hc, rfl⟩ := Sql.mem_update.mp hb
      have hcrun : c.runId = runId := by
        by_cases hpc : p c <;> simpa [hpc, hsame] using hbrun
      have hcof : c ∈ attemptsOf s runId := mem_attemptsOf.mpr ⟨hc, hcrun⟩
      simp only [hnone c hcof, Bool.false_eq_true, if_false] at hbattempt hbstatus
      have hac : a.attempt = c.attempt := by
        have hcurrent' := hok.current_of_running ha hra
        rw [hcurrent, Option.some.injEq] at hcurrent'
        rw [hbattempt, hcurrent']
      rw [hok.eq_of_attempt ha hcof hac] at hra
      exact hended (hbstatus.symm.trans hra)

theorem finishBatch_ok {runId : String} {attempt : Nat} {leaseToken : String} {result : FactoryAttemptResult}
    {imageJobs : Bool} {timestamp : Int} {s s' : FactoryState} {n : Nat} {ns : List Nat} {me : Option Nat}
    (h : FactoryOk s)
    (hbatch : Sql.runAll (finishBatch runId attempt leaseToken result imageJobs timestamp) s n = .ok (s', ns)) :
    FactoryOk s' ∧ Advance me s s' := by
  obtain ⟨builds, jobs, m, ms, hend⟩ := runAll_cancels (by
    intro q hq
    split at hq
    · rcases List.mem_cons.mp hq with rfl | hq
      · exact cancelBuilds_cancels _
      · split at hq
        · obtain rfl := List.mem_singleton.mp hq
          exact cancelImageJobs_cancels _ _ _
        · cases hq
    · cases hq) hbatch
  have hok : FactoryOk { s with builds := builds, imageJobs := jobs } := ⟨h.ids, h.owned, h.runs⟩
  obtain ⟨hok', hadvance⟩ : FactoryOk _ ∧ Advance me _ _ := endBatch_ok hok hend
  exact ⟨hok', hadvance.closed, hadvance.kept, hadvance.executed, hadvance.resumed, hadvance.taken⟩

/-- A reservation adds the next attempt of a queued run, or changes nothing. -/
theorem reserveBatch_ok {taker : Option Nat} {row : FactoryAttempt} {attemptCount : Nat} {s s' : FactoryState}
    {n : Nat} {ns : List Nat} (h : FactoryOk s) (hrow : row.status = .running)
    (hnext : row.attempt = attemptCount + 1) (hroom : attemptCount < factoryMaxAttempts)
    (hbatch : Sql.runAll (reserveBatch taker row attemptCount) s n = .ok (s', ns)) :
    (s' = s ∧ changed ns 1 = false) ∨
      (FactoryOk s' ∧ Advance taker s s' ∧ s'.attempts = s.attempts ++ [row] ∧
        s'.taken = (taker.map fun me => (me, row.runId, row.attempt)).toList ++ s.taken) := by
  obtain ⟨s₁, n₁, ns₁, hfirst, hbatch, rfl⟩ := Sql.runAll_cons_ok.mp hbatch
  obtain ⟨rfl, rfl⟩ := updateRuns_ok.mp hfirst
  obtain ⟨s₂, n₂, ns₂, hinsert, hnil, rfl⟩ := Sql.runAll_cons_ok.mp hbatch
  obtain ⟨rfl, rfl⟩ := Sql.runAll_nil_ok.mp hnil
  generalize hp : (fun run : FactoryRun => run.id = row.runId && run.status = .queued &&
    run.attemptCount = attemptCount) = p at hinsert
  generalize hg : (fun run : FactoryRun => { run with
    status := .running, attemptCount := row.attempt, currentAttempt := some row.attempt,
    leaseToken := some row.leaseToken, leaseExpiresAt := some row.leaseExpiresAt,
    updatedAt := row.startedAt }) = g at hinsert
  have hmatch : ∀ run, p run = true → run.id = row.runId ∧ run.status = .queued ∧
      run.attemptCount = attemptCount := by
    intro run hrun
    rw [← hp] at hrun
    simp only [Bool.and_eq_true, decide_eq_true_eq] at hrun
    exact ⟨hrun.1.1, hrun.1.2, hrun.2⟩
  have hid : ∀ run, (g run).id = run.id := by
    rw [← hg]
    exact fun _ => rfl
  by_cases hone : (Sql.update p g s.runs).2 = 1
  · right
    simp only [hone, if_true, Fallible.bind_ok, Prod.exists, Except.ok.injEq, Prod.mk.injEq] at hinsert
    obtain ⟨attempts, k, hins, rfl, rfl⟩ := hinsert
    obtain ⟨-, rfl, -⟩ := Sql.insert_ok.mp hins
    obtain ⟨found, hfound, hpfound⟩ := Sql.exists_of_update (f := g) (by rw [hone]; exact Nat.one_ne_zero)
    obtain ⟨hfoundId, hqueued, hcount⟩ := hmatch found hpfound
    refine ⟨⟨?_, fun a ha => ?_, fun run' hrun' => ?_⟩, ⟨fun run hmem hclosed => ?_, fun a ha => ?_, rfl, rfl, ?_⟩,
      rfl, rfl⟩
    · rw [Sql.map_update fun run _ => hid run]
      exact h.ids
    · obtain ⟨run, hmem, hrun⟩ : ∃ run ∈ s.runs, run.id = a.runId := by
        rcases List.mem_append.mp ha with ha | ha
        · exact h.owned a ha
        · exact ⟨found, hfound, by rw [List.mem_singleton.mp ha, hfoundId]⟩
      refine ⟨_, Sql.mem_update.mpr ⟨run, hmem, rfl⟩, ?_⟩
      by_cases hpr : p run <;> simp [hpr, hid, hrun]
    · obtain ⟨run, hmem, rfl⟩ := Sql.mem_update.mp hrun'
      by_cases hthis : run.id = row.runId
      · obtain rfl := h.eq_of_id hmem hfound (hthis.trans hfoundId.symm)
        have hof : attemptsOf { s with attempts := s.attempts ++ [row] } (g run).id = attemptsOf s run.id ++ [row] := by
          simp [attemptsOf, hid, hthis]
        simp only [hpfound, if_true]
        have hreserve : RunOk (g run) (attemptsOf s run.id ++ [row]) := by
          apply (h.runs run hmem).reserve hqueued (by omega) (by omega) hrow <;> rw [← hg]
        rw [← hof] at hreserve
        exact hreserve
      · have hpr : p run = false := by
          by_contra hpr
          exact hthis (hmatch run (by simpa using hpr)).1
        have hof : attemptsOf { s with attempts := s.attempts ++ [row] } run.id = attemptsOf s run.id := by
          simp [attemptsOf, Ne.symm hthis]
        simp only [hpr, Bool.false_eq_true, if_false]
        have hrun := h.runs run hmem
        rw [← hof] at hrun
        exact hrun
    · refine Sql.mem_update.mpr ⟨run, hmem, ?_⟩
      have hpr : p run = false := by
        by_contra hpr
        obtain ⟨-, hq, -⟩ := hmatch run (by simpa using hpr)
        rw [hq] at hclosed
        cases hclosed
      simp [hpr]
    · exact ⟨a, List.mem_append_left _ ha, rfl, rfl⟩
    · cases taker with
      | none => exact .inl rfl
      | some me =>
        refine .inr ⟨me, row.runId, row.attempt, rfl, rfl, fun a ha hsame => ?_, row, by simp, rfl, rfl⟩
        have hle := (h.runs found hfound).attempt_le (mem_attemptsOf.mpr ⟨ha, hsame.1.trans hfoundId.symm⟩)
        omega
  · left
    simp only [hone, if_false, Except.ok.injEq, Prod.mk.injEq] at hinsert
    obtain ⟨rfl, rfl⟩ := hinsert
    have hle : (Sql.update p g s.runs).2 ≤ 1 := Sql.update_le_one h.ids fun run _ hrun => (hmatch run hrun).1
    have hsame : (Sql.update p g s.runs).1 = s.runs := Sql.update_none_of_zero (by omega)
    rw [hsame]
    exact ⟨rfl, rfl⟩

end Omapkg.Server
