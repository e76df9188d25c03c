import Omapkg.Server.FactoryBatches
/-!
# What factory runs keep

Whatever the order of reserving, renewing, finishing and stopping, the runs
agree with their attempts.
-/

namespace Omapkg.Server

open Prog

/-! ## Requests -/

theorem findReserved_ok {me : Option Nat} {input : FactoryAttemptInput} {s : FactoryState} (h : FactoryOk s) :
    FactoryOk (findReserved me input s).2 ∧ Advance me s (findReserved me input s).2 := by
  have hsame : (findReserved me input s).2 = s ∨
      (findReserved me input s).2 = { s with redelivered := s.redelivered + 1 } := by
    unfold findReserved
    split
    · split
      · exact .inl rfl
      · exact .inr rfl
    · exact .inl rfl
  rcases hsame with hs | hs <;> rw [hs]
  · exact ⟨h, refl_of (Advance me) s⟩
  · exact ⟨⟨h.ids, h.owned, h.runs⟩, fun _ hmem _ => hmem, fun a ha => ⟨a, ha, rfl, rfl⟩, rfl, rfl, .inl rfl⟩

/-- What an invariant, and what others do, must allow for the requests of a
factory run to keep it; `Q` is what holds of an attempt that `me` is given. -/
structure Terms (me : Option Nat) (I : FactoryState → Prop) (C G R : FactoryState → FactoryState → Prop)
    (Q : FactoryAttempt → FactoryState → Prop) : Prop where
  ok {s} : I s → FactoryOk s
  step {s s'} : I s → FactoryOk s' → Advance me s s' → C s s' → I s' ∧ G s s'
  found {input s a s'} : I s → C s (findReserved me input s).2 → reserved input s = some a → I s' →
    R (findReserved me input s).2 s' → Q a s'
  took {s s' s'' a k} {row : FactoryAttempt} : I s → I s' →
    s'.taken = (me.map fun n => (n, row.runId, row.attempt)).toList ++ s.taken → Advance me s s' →
    I s'' → R s' s'' → attemptRow row.runId row.attempt k = some a → Q a s''

section
variable {me : Option Nat} {I : FactoryState → Prop} {C G R : FactoryState → FactoryState → Prop} [Std.Refl G]
  {Q : FactoryAttempt → FactoryState → Prop}

theorem stop_keeps (h : Terms me I C G R Q) (runId : String) (reason : JsString) (policy : Option (Json JsString))
    (s : FactoryState) : Keeps I C G R (fun _ _ => True) (stopFactoryRun runId reason policy) s := by
  unfold stopFactoryRun
  refine keeps_ofExcept_bind fun _ _ => keeps_ofExcept_bind fun cleanReason _ => keeps_read_bind fun s₁ _ _ =>
    keeps_read_bind fun s₂ _ _ => Sql.keeps_run_bind fun s₃ s₄ ns hi _ hbatch hc => ?_
  obtain ⟨hok, hadvance⟩ : FactoryOk _ ∧ Advance me _ _ := stopBatch_ok (h.ok hi) hbatch
  refine ⟨(h.step hi hok hadvance hc).1, (h.step hi hok hadvance hc).2, keeps_read_bind fun s₅ _ _ => ?_⟩
  cases runRow runId s₅ with
  | none => trivial
  | some run => exact fun _ _ _ => trivial

theorem renew_keeps (h : Terms me I C G R Q) (runId : String) (attempt : Nat) (leaseToken : String)
    (leaseSeconds : Int) (s : FactoryState) :
    Keeps I C G R (fun _ _ => True) (renewFactoryAttempt runId attempt leaseToken leaseSeconds) s := by
  unfold renewFactoryAttempt
  refine keeps_ofExcept_bind fun _ _ => keeps_ofExcept_bind fun _ _ => keeps_ofExcept_bind fun _ _ =>
    keeps_ofExcept_bind fun _ _ => keeps_read_bind fun s₁ _ _ =>
      Sql.keeps_run_bind fun s₂ s₃ ns hi _ hbatch hc => ?_
  obtain ⟨hok, hadvance⟩ : FactoryOk _ ∧ Advance me _ _ := renewBatch_ok (h.ok hi) hbatch
  refine ⟨(h.step hi hok hadvance hc).1, (h.step hi hok hadvance hc).2, ?_⟩
  split
  · trivial
  · refine keeps_read_bind fun s₄ _ _ => ?_
    cases attemptRow runId attempt s₄ with
    | none => trivial
    | some a => exact fun _ _ _ => trivial

theorem finish_keeps (h : Terms me I C G R Q) (runId : String) (attempt : Nat) (leaseToken : String)
    (result : FactoryAttemptResult) (s : FactoryState) :
    Keeps I C G R (fun _ _ => True) (finishFactoryAttempt runId attempt leaseToken result) s := by
  unfold finishFactoryAttempt
  refine keeps_ofExcept_bind fun _ _ => keeps_ofExcept_bind fun _ _ => keeps_ofExcept_bind fun _ _ =>
    keeps_ofExcept_bind fun _ _ => keeps_read_bind fun s₁ _ _ => ?_
  cases attemptRow runId attempt s₁ with
  | none => trivial
  | some current =>
    simp only
    split
    · exact keeps_ofExcept fun _ _ _ _ _ => trivial
    · refine keeps_read_bind fun s₂ _ _ => keeps_read_bind fun s₃ _ _ => keeps_ofExcept_bind fun _ _ =>
        keeps_read_bind fun s₄ _ _ => Sql.keeps_run_bind fun s₅ s₆ ns hi _ hbatch hc => ?_
      obtain ⟨hok, hadvance⟩ : FactoryOk _ ∧ Advance me _ _ := finishBatch_ok (h.ok hi) hbatch
      refine ⟨(h.step hi hok hadvance hc).1, (h.step hi hok hadvance hc).2, ?_⟩
      generalize (if result.outcome = .failed then 1 + s₄.imageJobs.isSome.toNat else 0) = attemptIndex
      split
      · trivial
      · refine keeps_read_bind fun s₇ _ _ => ?_
        cases attemptRow runId attempt s₇ with
        | none => trivial
        | some a => exact fun _ _ _ => trivial

/-- What stops a run and then refuses. -/
theorem stop_fail_keeps [Std.Refl R] (h : Terms me I C G R Q) (runId : String) (reason : JsString)
    (policy : Option (Json JsString)) {α : Type} {P : α → FactoryState → Prop} (e : FactoryThrow) {s : FactoryState}
    (hi : I s) : Keeps I C G R P (stopFactoryRun runId reason policy >>= fun _ => fail e) s :=
  keeps_bind hi (stop_keeps h runId reason policy s) fun _ _ _ _ => trivial

omit [Std.Refl G] in
/-- The second lookup by the reservation key. -/
theorem raced_keeps (h : Terms me I C G R Q) (input : FactoryAttemptInput) (s : FactoryState) :
    Keeps I C G R Q (transact (findReserved me input) >>= fun raced =>
      match raced with
      | some a => pure a
      | none => fail (.run "attempt-busy" "Factory run changed while reserving an attempt.")) s := by
  refine keeps_transact_bind fun s₁ hi₁ _ hc₁ => ?_
  obtain ⟨hok₁, hadvance₁⟩ : FactoryOk _ ∧ Advance me s₁ (findReserved me input s₁).2 := findReserved_ok (h.ok hi₁)
  obtain ⟨hi₁', hg₁⟩ := h.step hi₁ hok₁ hadvance₁ hc₁
  refine ⟨hi₁', hg₁, fun raced hraced => ?_⟩
  obtain rfl : reserved input s₁ = raced := by simpa [findReserved] using hraced
  cases hfound : reserved input s₁ with
  | none => trivial
  | some a => exact fun s' hi' hr => h.found hi₁ hc₁ hfound hi' hr

theorem reserve_keeps [Std.Refl R] [IsTrans FactoryState R] (h : Terms me I C G R Q) (input : FactoryAttemptInput)
    (attemptId leaseToken : String) (s : FactoryState) :
    Keeps I C G R Q (reserveFactoryAttempt me input attemptId leaseToken) s := by
  unfold reserveFactoryAttempt
  refine keeps_ofExcept_bind fun _ _ => keeps_transact_bind fun s₁ hi₁ _ hc₁ => ?_
  obtain ⟨hok₁, hadvance₁⟩ : FactoryOk _ ∧ Advance me s₁ (findReserved me input s₁).2 := findReserved_ok (h.ok hi₁)
  obtain ⟨hi₁', hg₁⟩ := h.step hi₁ hok₁ hadvance₁ hc₁
  refine ⟨hi₁', hg₁, fun existing hexisting => ?_⟩
  obtain rfl : reserved input s₁ = existing := by simpa [findReserved] using hexisting
  cases hfound : reserved input s₁ with
  | some a =>
    refine keeps_ofExcept fun b hb s' hi' hr => ?_
    obtain rfl : a = b := by
      unfold sameCandidate at hb
      split at hb
      · cases hb
      · exact Except.ok.inj hb
    exact h.found hi₁ hc₁ hfound hi' hr
  | none =>
    refine keeps_read_bind fun s₂ hi₂ _ => keeps_ofExcept_bind fun run _ => ?_
    split
    · exact stop_fail_keeps h _ _ _ _ hi₂
    · refine keeps_read_bind fun s₃ _ _ => ?_
      split
      · trivial
      · refine keeps_read_bind fun s₄ hi₄ _ => ?_
        split
        · exact stop_fail_keeps h _ _ _ _ hi₄
        · split
          · exact stop_fail_keeps h _ _ _ _ hi₄
          · next hroom =>
            refine keeps_read_bind fun s₅ _ _ => Sql.keeps_run_bind fun s₆ s₇ ns hi₆ _ hbatch hc => ?_
            rcases reserveBatch_ok (h.ok hi₆) rfl rfl (by omega) hbatch with ⟨rfl, hunchanged⟩ | ⟨hok, hadvance, -, htaken⟩
            · refine ⟨hi₆, refl_of G _, ?_⟩
              simp only [hunchanged, Bool.not_false, Bool.or_true, if_true]
              exact raced_keeps h input _
            · obtain ⟨hi₇, hg₇⟩ := h.step hi₆ hok hadvance hc
              refine ⟨hi₇, hg₇, ?_⟩
              split
              · exact raced_keeps h input _
              · refine keeps_read_bind fun s₈ hi₈ hs₈ => ?_
                cases hrow : attemptRow input.runId (run.attemptCount + 1) s₈ with
                | none => trivial
                | some a =>
                  exact fun s₉ hi₉ hs₉ => h.took hi₆ hi₇ htaken hadvance hi₉ (trans_of R hs₈ hs₉) hrow

end

/-! ## Runs of requests -/

/-- What others do to the tables: the clock is anything, builds and image jobs
change, a run is queued, a running attempt is bound to builds or to a dispatch,
and a coordinator's run, which has no attempts, is completed. -/
inductive FactoryMoves : FactoryState → FactoryState → Prop where
  | clock (s : FactoryState) (clock : Int) : FactoryMoves s { s with clock }
  | jobs (s : FactoryState) (builds : List FactoryBuild) (imageJobs : Option (List FactoryImageJob)) :
      FactoryMoves s { s with builds, imageJobs }
  | queue (s : FactoryState) (id : String) (policy : Json JsString) (createdAt : Int) :
      (∀ run ∈ s.runs, run.id ≠ id) →
      FactoryMoves s { s with runs := s.runs ++ [⟨id, .queued, 0, none, none, policy, none, none, none, none, createdAt⟩] }
  | bind (s : FactoryState) (runId : String) (attempt : Nat) (buildIds : FactoryAttempt → List String)
      (dispatchId : FactoryAttempt → Option String) (updatedAt : Int) :
      FactoryMoves s { s with attempts := (Sql.update
        (fun a => a.runId = runId && a.attempt = attempt && a.status = .running)
        (fun a => { a with buildIds := buildIds a, dispatchId := dispatchId a, updatedAt := updatedAt }) s.attempts).1 }
  | coordinate (s : FactoryState) (id : String) (artifact : Json JsString) (updatedAt : Int) :
      FactoryMoves s { s with runs := (Sql.update
        (fun run => run.id = id && isOpen run.status && run.attemptCount = 0)
        (fun run => { run with status := .succeeded, artifact := some artifact, updatedAt := updatedAt }) s.runs).1 }

/-- A run that is not open stays as it is. -/
def ClosedStays (s s' : FactoryState) : Prop := ∀ run ∈ s.runs, isOpen run.status = false → run ∈ s'.runs

instance : Std.Refl ClosedStays := ⟨fun _ _ h _ => h⟩

instance : IsTrans FactoryState ClosedStays := ⟨fun _ _ _ h h' run hrun hclosed => h' run (h run hrun hclosed) hclosed⟩

theorem RunOk.queued (id : String) (policy : Json JsString) (createdAt : Int) :
    RunOk ⟨id, .queued, 0, none, none, policy, none, none, none, none, createdAt⟩ [] where
  numbered := rfl
  bounded := Nat.zero_le _
  current := rfl
  leased := by simp
  held := by simp

theorem FactoryMoves.ok {s s' : FactoryState} (hmove : FactoryMoves s s') (h : FactoryOk s) :
    FactoryOk s' ∧ Advance none s s' := by
  cases hmove with
  | clock clock => exact ⟨⟨h.ids, h.owned, h.runs⟩, fun _ hrun _ => hrun, fun a ha => ⟨a, ha, rfl, rfl⟩, rfl, rfl, .inl rfl⟩
  | jobs builds imageJobs =>
    exact ⟨⟨h.ids, h.owned, h.runs⟩, fun _ hrun _ => hrun, fun a ha => ⟨a, ha, rfl, rfl⟩, rfl, rfl, .inl rfl⟩
  | queue id policy createdAt hnew =>
    have hnone : attemptsOf s id = [] := by
      refine List.filter_eq_nil_iff.mpr fun a ha hid => ?_
      obtain ⟨run, hrun, hrunId⟩ := h.owned a ha
      exact hnew run hrun (hrunId.trans (by simpa using hid))
    refine ⟨⟨?_, fun a ha => ?_, fun run hrun => ?_⟩, fun _ hrun _ => List.mem_append_left _ hrun,
      fun a ha => ⟨a, ha, rfl, rfl⟩, rfl, rfl, .inl rfl⟩
    · rw [List.map_append, List.nodup_append]
      refine ⟨h.ids, by simp, fun x hx y hy => ?_⟩
      obtain ⟨run, hrun, rfl⟩ := List.mem_map.mp hx
      obtain rfl := List.mem_singleton.mp hy
      exact hnew run hrun
    · obtain ⟨run, hrun, hrunId⟩ := h.owned a ha
      exact ⟨run, List.mem_append_left _ hrun, hrunId⟩
    · rcases List.mem_append.mp hrun with hrun | hrun
      · exact h.runs run hrun
      · obtain rfl := List.mem_singleton.mp hrun
        show RunOk _ (attemptsOf s id)
        rw [hnone]
        exact RunOk.queued id policy createdAt
  | bind runId attempt buildIds dispatchId updatedAt =>
    have hu : UpdatesRun runId (fun a => a.runId = runId && a.attempt = attempt && a.status = .running)
        (fun a => { a with buildIds := buildIds a, dispatchId := dispatchId a, updatedAt := updatedAt })
        (fun _ => false) id := by
      refine ⟨fun a ha => ?_, by simp, fun _ => ⟨rfl, rfl⟩, fun _ => rfl⟩
      simp only [Bool.and_eq_true, decide_eq_true_eq] at ha
      exact ha.1.1
    have hruns : s.runs = (Sql.update (fun _ => false) id s.runs).1 := by rw [Sql.update_none (by simp)]
    refine ⟨h.update hu rfl hruns fun run _ _ hok => ?_, .update hu rfl hruns rfl rfl rfl⟩
    exact hok.same fun _ => ⟨rfl, rfl, rfl, rfl⟩
  | coordinate id artifact updatedAt =>
    have hu : UpdatesRun id (fun _ => false) (fun a => a)
        (fun run => run.id = id && isOpen run.status && run.attemptCount = 0)
        (fun run => { run with status := .succeeded, artifact := some artifact, updatedAt := updatedAt }) := by
      refine ⟨by simp, fun run hrun => ?_, fun _ => ⟨rfl, rfl⟩, fun _ => rfl⟩
      simp only [Bool.and_eq_true, decide_eq_true_eq] at hrun
      exact hrun.1
    have hattempts : s.attempts = (Sql.update (fun _ => false) (fun a => a) s.attempts).1 := by
      rw [Sql.update_none (by simp)]
    refine ⟨h.update hu hattempts rfl fun run _ _ hok => ?_, .update hu hattempts rfl rfl rfl rfl⟩
    split
    · next hq =>
      simp only [Bool.and_eq_true, decide_eq_true_eq] at hq
      have hnone : attemptsOf s id = [] := by
        rw [← List.map_eq_nil_iff (f := (·.attempt)), hok.numbered, hq.2]
        rfl
      rw [hnone] at hok ⊢
      exact ⟨hok.numbered, hok.bounded, hok.current, by simp [Sql.update], by simp⟩
    · rwa [Sql.update_none (by simp)]

/-- A request that is answered. -/
inductive FactoryRequest : Nat → Prog FactoryState FactoryThrow Unit → Prop where
  | reserve (n : Nat) (input : FactoryAttemptInput) (attemptId leaseToken : String) :
      FactoryRequest n (reserveFactoryAttempt none input attemptId leaseToken >>= fun _ => pure ())
  | renew (n : Nat) (runId : String) (attempt : Nat) (leaseToken : String) (leaseSeconds : Int) :
      FactoryRequest n (renewFactoryAttempt runId attempt leaseToken leaseSeconds >>= fun _ => pure ())
  | finish (n : Nat) (runId : String) (attempt : Nat) (leaseToken : String) (result : FactoryAttemptResult) :
      FactoryRequest n (finishFactoryAttempt runId attempt leaseToken result >>= fun _ => pure ())
  | stop (n : Nat) (runId : String) (reason : JsString) (policy : Option (Json JsString)) :
      FactoryRequest n (stopFactoryRun runId reason policy >>= fun _ => pure ())

/-- No runs yet. -/
def factoryStart (clock : Int) (builds : List FactoryBuild) (imageJobs : Option (List FactoryImageJob)) :
    Pool FactoryState FactoryThrow Unit :=
  ⟨⟨clock, [], [], builds, imageJobs, [], [], [], 0⟩, []⟩

/-- Others may do anything: what a request reads does not matter. -/
def Anything (_ _ : FactoryState) : Prop := True

instance : Std.Refl Anything := ⟨fun _ => trivial⟩

instance : IsTrans FactoryState Anything := ⟨fun _ _ _ _ _ => trivial⟩

theorem factory_terms :
    Terms none FactoryOk (fun _ _ => True) (Advance none) Anything fun _ _ => True where
  ok h := h
  step _ hok hadvance _ := ⟨hok, hadvance⟩
  found _ _ _ _ _ := trivial
  took _ _ _ _ _ _ _ := trivial

theorem factory_agree :
    Pool.Agree FactoryRequest FactoryMoves FactoryOk (fun _ _ => True) (fun _ => Advance none) (fun _ => Anything)
      fun _ _ => True where
  refl _ := inferInstance
  trans _ := inferInstance
  start := by
    rintro n p s hrequest hi
    cases hrequest with
    | reserve input attemptId leaseToken =>
      exact keeps_bind hi (reserve_keeps factory_terms input attemptId leaseToken s) fun _ _ _ _ _ _ _ => trivial
    | renew runId attempt leaseToken leaseSeconds =>
      exact keeps_bind hi (renew_keeps factory_terms runId attempt leaseToken leaseSeconds s)
        fun _ _ _ _ _ _ _ => trivial
    | finish runId attempt leaseToken result =>
      exact keeps_bind hi (finish_keeps factory_terms runId attempt leaseToken result s) fun _ _ _ _ _ _ _ => trivial
    | stop runId reason policy =>
      exact keeps_bind hi (stop_keeps factory_terms runId reason policy s) fun _ _ _ _ _ _ _ => trivial
  others _ _ _ _ := trivial
  outside hmove hi := ⟨(hmove.ok hi).1, fun _ => trivial⟩

theorem factory_good {clock : Int} {builds : List FactoryBuild} {imageJobs : Option (List FactoryImageJob)}
    {pool : Pool FactoryState FactoryThrow Unit}
    (h : Pool.Steps FactoryRequest FactoryMoves (factoryStart clock builds imageJobs) pool) :
    pool.Good FactoryOk (fun _ _ => True) (fun _ => Advance none) (fun _ => Anything) fun _ _ => True :=
  Pool.Good.steps factory_agree (Pool.good_start ⟨by simp, by simp, by simp⟩) h

/-- Whatever the order of requests, each run agrees with its attempts, and one
that is not open is as it was in every state after. -/
theorem factory_runs_agree (clock : Int) (builds : List FactoryBuild) (imageJobs : Option (List FactoryImageJob))
    (pool later : Pool FactoryState FactoryThrow Unit)
    (hrun : Pool.Steps FactoryRequest FactoryMoves (factoryStart clock builds imageJobs) pool)
    (hlater : Pool.Steps FactoryRequest FactoryMoves pool later) :
    (∀ run ∈ pool.state.runs,
      let attempts := attemptsOf pool.state run.id
      attempts.map (·.attempt) = List.range' 1 run.attemptCount ∧ run.attemptCount ≤ 3 ∧
        attempts.countP (·.status = .running) ≤ 1 ∧
        (run.status = .running ↔ ∃ a ∈ attempts, run.currentAttempt = some a.attempt ∧ a.status = .running) ∧
        ∀ a ∈ attempts, a.status = .running →
          run.leaseToken = some a.leaseToken ∧ run.leaseExpiresAt = some a.leaseExpiresAt) ∧
      ∀ run ∈ pool.state.runs, isOpen run.status = false →
        run ∈ later.state.runs ∧ ∀ run' ∈ later.state.runs, run'.id = run.id → run' = run := by
  have hgood := factory_good hrun
  have hgood' := factory_good (hrun.trans hlater)
  refine ⟨fun run hmem => ?_, fun run hmem hclosed => ?_⟩
  · have hok := hgood.1.runs run hmem
    exact ⟨hok.numbered, hok.bounded, hok.countP_running, hok.running_iff,
      fun a ha hra => (hok.leased a ha hra).2.2⟩
  · have hstays : ClosedStays pool.state later.state :=
      hgood.steps_state (P := ClosedStays) factory_agree (fun _ _ _ h => h.closed) (fun _ _ hi hmove => (hmove.ok hi).2.closed) hlater
    have hmem' := hstays run hmem hclosed
    exact ⟨hmem', fun run' hrun' hid => hgood'.1.eq_of_id hrun' hmem' hid⟩

/-! ## A stopped run -/

def sampleRun : FactoryRun := ⟨"run-1", .queued, 0, none, none, .null, none, none, none, none, 1000⟩

def sampleReservation (key : String) : FactoryAttemptInput :=
  ⟨"run-1", key, String.ofList (List.replicate 64 'a'), String.ofList (List.replicate 64 'b'), none, none, none, none,
    none⟩

def addSampleRun (s : FactoryState) : FactoryState := { s with runs := s.runs ++ [sampleRun] }

theorem addSampleRun_moves :
    FactoryMoves (factoryStart 1000 [] none).state (addSampleRun (factoryStart 1000 [] none).state) :=
  .queue _ "run-1" .null 1000 (by simp [factoryStart])

/-- An attempt of a queued run is reserved and the run is stopped. -/
def stoppedPool : Pool FactoryState FactoryThrow Unit :=
  (((((factoryStart 1000 [] none).moving addSampleRun).starting
    (reserveFactoryAttempt none (sampleReservation "attempt:1") "attempt-1" "token-1" >>= fun _ => pure ())).turns
      (List.replicate 8 0)).starting
    (stopFactoryRun "run-1" (Utf.units "Cancelled.") none >>= fun _ => pure ())).turns (List.replicate 4 1)

/-- Then another attempt is asked for. -/
def retriedPool : Pool FactoryState FactoryThrow Unit :=
  (stoppedPool.starting
    (reserveFactoryAttempt none (sampleReservation "attempt:2") "attempt-2" "token-2" >>= fun _ => pure ())).turns
      (List.replicate 8 2)

theorem stoppedPool_steps : Pool.Steps FactoryRequest FactoryMoves (factoryStart 1000 [] none) stoppedPool := by
  have hstart : Pool.Steps FactoryRequest FactoryMoves (factoryStart 1000 [] none) (factoryStart 1000 [] none) := .refl
  exact ((((hstart.moving addSampleRun addSampleRun_moves).starting (.reserve _ _ _ _)).turns _).starting (.stop _ _ _ _)).turns _

theorem retriedPool_steps : Pool.Steps FactoryRequest FactoryMoves stoppedPool retriedPool := by
  have hstart : Pool.Steps FactoryRequest FactoryMoves stoppedPool stoppedPool := .refl
  exact (hstart.starting (.reserve _ _ _ _)).turns _

theorem stopped_run_stays :
    (stoppedPool.state.runs.map fun run => (run.status, run.attemptCount)) = [(.needsHumanIntervention, 1)] ∧
      ∀ run ∈ stoppedPool.state.runs, isOpen run.status = false → run ∈ retriedPool.state.runs :=
  ⟨by decide +kernel, fun run hmem hclosed =>
    ((factory_runs_agree 1000 [] none stoppedPool retriedPool stoppedPool_steps retriedPool_steps).2 run hmem hclosed).1⟩

end Omapkg.Server
