import Omapkg.Server.FactoryRuns
/-!
# A lost lease

`finishFactoryAttempt` of `src/src/lib/server/factory-runs.ts` with the audit log it
writes. The updates of its batch look for the lease again, the inserts into the log do
not. So when the lease is lost between the check and the batch, the call throws that it
is fenced after the batch was written.
-/

namespace Omapkg.Server.Audited

open Utf Json Prog

/-! ## The log -/

/-- A row of `audit_events`. -/
structure AuditEvent where
  actor : String
  action : String
  target : String
  detail : Json JsString
  createdAt : Int

/-- The tables of the factory and the log. -/
structure AuditedState where
  tables : FactoryState
  auditEvents : List AuditEvent

def AuditedState.put (s : AuditedState) (tables : FactoryState) : AuditedState := { s with tables }

def onTables : Sql.Statement FactoryState → Sql.Statement AuditedState :=
  Sql.Statement.on AuditedState.tables AuditedState.put

def audit (actor action target : String) (detail : Json JsString) : Sql.Statement AuditedState := fun s _ =>
  .ok ({ s with auditEvents := s.auditEvents ++ [⟨actor, action, target, detail, s.tables.clock⟩] }, 1)

/-! ## Finishing an attempt -/

def outcomeText : FactoryOutcome → String
  | .succeeded => "succeeded"
  | .failed => "failed"

def attemptDetail (attempt : Nat) (result : FactoryAttemptResult) : Json JsString :=
  .obj [(units "attempt", .num (.ofNat attempt)),
    (units "failureKind", (result.failureKind.map fun kind => Json.str (units kind.text)).getD .null),
    (units "artifact", coalesce result.artifact .null)]

def interventionDetail (attempt : Nat) (result : FactoryAttemptResult) : Json JsString :=
  .obj [(units "attempt", .num (.ofNat attempt)),
    (units "reason", .str (units (if result.failureKind = some .policy then "policy-stop" else "budget-exhausted")))]

def auditBatch (runId : String) (attempt : Nat) (result : FactoryAttemptResult) : List (Sql.Statement AuditedState) :=
  audit "factory" s!"factory.attempt_{outcomeText result.outcome}" runId (attemptDetail attempt result) ::
    (if runStatusAfter attempt result = .needsHumanIntervention then
      [audit "factory" "factory.needs_human_intervention" runId (interventionDetail attempt result)]
     else [])

def finishBatch (runId : String) (attempt : Nat) (leaseToken : String) (result : FactoryAttemptResult)
    (imageJobs : Bool) (timestamp : Int) : List (Sql.Statement AuditedState) :=
  (Server.finishBatch runId attempt leaseToken result imageJobs timestamp).map onTables ++ auditBatch runId attempt result

def attemptIndex (result : FactoryAttemptResult) (imageJobs : Bool) : Nat :=
  if result.outcome = .failed then 1 + imageJobs.toNat else 0

def finishFactoryAttempt (runId : String) (attempt : Nat) (leaseToken : String) (result : FactoryAttemptResult) :
    Prog AuditedState FactoryThrow FactoryAttempt := do
  let _ ← ofExcept (requireIdentifier runId "run id")
  let _ ← ofExcept (requireIdentifier leaseToken "lease token")
  let _ ← ofExcept (requireAttempt attempt)
  let _ ← ofExcept (checkResult result)
  let found ← read fun s => attemptRow runId attempt s.tables
  match found with
  | none => fail (.run "not-found" "Factory attempt not found.")
  | some current =>
    if current.status ≠ .running then ofExcept (repeatedResult result current)
    else
      let run ← read fun s => runRow runId s.tables
      let timestamp ← read (·.tables.clock)
      let _ ← ofExcept (checkLease attempt leaseToken timestamp run current)
      let imageJobsAvailable ← read (·.tables.imageJobs.isSome)
      let results ← Sql.run (finishBatch runId attempt leaseToken result imageJobsAvailable timestamp) .database
      if !changed results (attemptIndex result imageJobsAvailable) ||
          !changed results (attemptIndex result imageJobsAvailable + 1) then
        fail (.run "lease-fenced" "Factory attempt lease is fenced.")
      else
        let finished ← read fun s => attemptRow runId attempt s.tables
        match finished with
        | none => fail (.run "storage" "Factory attempt result was not persisted.")
        | some a => pure a

/-! ## The batch -/

/-- The attempt and its run are running under this lease, the attempt's unexpired. -/
def Held (runId : String) (attempt : Nat) (leaseToken : String) (timestamp : Int) (s : FactoryState) : Prop :=
  (∃ a ∈ s.attempts, a.runId = runId ∧ a.attempt = attempt ∧ a.status = .running ∧ a.leaseToken = leaseToken ∧
    a.leaseExpiresAt > timestamp) ∧
  ∃ run ∈ s.runs, run.id = runId ∧ run.status = .running ∧ run.currentAttempt = some attempt ∧
    run.leaseToken = some leaseToken

/-- The table of image jobs is there for a batch that writes to it. -/
def JobsThere (result : FactoryAttemptResult) (imageJobs : Bool) (s : FactoryState) : Prop :=
  result.outcome = .failed → imageJobs = true → s.imageJobs.isSome

section
variable {runId leaseToken : String} {attempt : Nat} {result : FactoryAttemptResult} {imageJobs : Bool} {timestamp : Int}

theorem count_pos {α : Type} {p : α → Bool} {f : α → α} {rows : List α} :
    0 < (Sql.update p f rows).2 ↔ ∃ a ∈ rows, p a = true := List.countP_pos_iff

/-- The updates of the attempt and the run both find a row exactly when the lease is held. -/
theorem endBatch_spec (s : FactoryState) (n : Nat) : ∃ s' ka kr,
    Sql.runAll (endBatch runId attempt leaseToken result timestamp) s n = .ok (s', [ka, kr]) ∧
      (0 < ka ∧ 0 < kr ↔ Held runId attempt leaseToken timestamp s) := by
  refine ⟨_, _, _, rfl, ?_⟩
  rw [count_pos, count_pos]
  simp only [Bool.and_eq_true, decide_eq_true_eq, List.any_eq_true, and_assoc]
  constructor
  · rintro ⟨⟨a, ha, hrun, hattempt, hstatus, htoken, hexpires⟩, run, hmem, hid, hrunning, hcurrent, hrunToken, -⟩
    exact ⟨⟨a, ha, hrun, hattempt, hstatus, htoken, hexpires⟩, run, hmem, hid, hrunning, hcurrent, hrunToken⟩
  · rintro ⟨⟨a, ha, hrun, hattempt, hstatus, htoken, hexpires⟩, run, hmem, hid, hrunning, hcurrent, hrunToken⟩
    refine ⟨⟨a, ha, hrun, hattempt, hstatus, htoken, hexpires⟩, run, hmem, hid, hrunning, hcurrent, hrunToken, ?_⟩
    -- the attempt that the first update ended
    refine ⟨_, Sql.mem_update.mpr ⟨a, ha, rfl⟩, ?_⟩
    rw [if_pos (by simp [hrun, hattempt, hstatus, htoken, hexpires])]
    exact ⟨hrun, hattempt, rfl, htoken⟩

theorem cancelBuilds_spec (p : FactoryState → FactoryBuild → Bool) (s : FactoryState) (n : Nat) :
    ∃ s' k, cancelBuilds p s n = .ok (s', k) ∧ s'.attempts = s.attempts ∧ s'.runs = s.runs ∧ s'.imageJobs = s.imageJobs :=
  ⟨_, _, rfl, rfl, rfl, rfl⟩

theorem cancelImageJobs_spec (p : FactoryState → FactoryImageJob → Bool) (error : JsString) (s : FactoryState) (n : Nat)
    (h : s.imageJobs.isSome) : ∃ s' k, cancelImageJobs p error timestamp s n = .ok (s', k) ∧ s'.attempts = s.attempts ∧
      s'.runs = s.runs := by
  obtain ⟨jobs, hjobs⟩ := Option.isSome_iff_exists.mp h
  unfold cancelImageJobs
  rw [hjobs]
  exact ⟨_, _, rfl, rfl, rfl⟩

/-- What a failure cancels comes before the updates, and leaves the lease as it is. -/
theorem cancelBatch_spec (s : FactoryState) (n : Nat) (himage : imageJobs = true → s.imageJobs.isSome) : ∃ s' ns,
    Sql.runAll (cancelBatch runId attempt imageJobs timestamp) s n = .ok (s', ns) ∧ ns.length = 1 + imageJobs.toNat ∧
      s'.attempts = s.attempts ∧ s'.runs = s.runs := by
  obtain ⟨s₁, k, hbuilds, hattempts, hruns, hjobs⟩ :=
    cancelBuilds_spec (fun _ b => b.runId = some runId && b.attempt = some attempt) s n
  cases imageJobs with
  | false => exact ⟨s₁, [k], Sql.runAll_cons_ok.mpr ⟨s₁, k, [], hbuilds, rfl, rfl⟩, rfl, hattempts, hruns⟩
  | true =>
    obtain ⟨s₂, k', hcancel, hattempts', hruns'⟩ := @cancelImageJobs_spec timestamp
      (fun _ j => j.runId = runId && j.attempt = attempt) (units "factory attempt failed") s₁ k (hjobs ▸ himage rfl)
    have hrest : Sql.runAll [cancelImageJobs (fun _ j => j.runId = runId && j.attempt = attempt)
        (units "factory attempt failed") timestamp] s₁ k = .ok (s₂, [k']) :=
      Sql.runAll_cons_ok.mpr ⟨s₂, k', [], hcancel, rfl, rfl⟩
    exact ⟨s₂, [k, k'], Sql.runAll_cons_ok.mpr ⟨s₁, k, [k'], hbuilds, hrest, rfl⟩, rfl, hattempts'.trans hattempts,
      hruns'.trans hruns⟩

variable (runId attempt) in
/-- The batch is written where its tables are there, and its updates find the lease when it is held. -/
theorem finishBatch_spec (s : FactoryState) (hjobs : JobsThere result imageJobs s) : ∃ s' ns,
    Sql.runAll (Server.finishBatch runId attempt leaseToken result imageJobs timestamp) s 0 = .ok (s', ns) ∧
      ns.length = attemptIndex result imageJobs + 2 ∧
      (changed ns (attemptIndex result imageJobs) = true ∧ changed ns (attemptIndex result imageJobs + 1) = true ↔
        Held runId attempt leaseToken timestamp s) := by
  unfold Server.finishBatch attemptIndex
  by_cases hfailed : result.outcome = .failed
  · rw [if_pos hfailed, if_pos hfailed]
    obtain ⟨s₁, ns, hcancel, hlength, hattempts, hruns⟩ := cancelBatch_spec s 0 (hjobs hfailed)
    obtain ⟨s₂, ka, kr, hend, hheld⟩ := endBatch_spec s₁ (ns.getLastD 0)
    refine ⟨s₂, ns ++ [ka, kr], Sql.runAll_append_ok.mpr ⟨s₁, ns, _, hcancel, hend, rfl⟩, by simp [hlength], ?_⟩
    rw [Held, hattempts, hruns, ← Held] at hheld
    rw [← hheld, ← hlength]
    simp [changed]
  · rw [if_neg hfailed, if_neg hfailed, List.nil_append]
    obtain ⟨s₂, ka, kr, hend, hheld⟩ := endBatch_spec s 0
    exact ⟨s₂, [ka, kr], hend, rfl, by simpa [changed] using hheld⟩

variable (runId attempt) in
/-- The log is written, whatever the updates found. -/
theorem auditBatch_spec (s : AuditedState) (n : Nat) : ∃ s' ns,
    Sql.runAll (auditBatch runId attempt result) s n = .ok (s', ns) ∧ s.auditEvents.length < s'.auditEvents.length := by
  unfold auditBatch
  split
  · exact ⟨_, _, rfl, by simp⟩
  · exact ⟨_, _, rfl, by simp⟩

theorem changed_append {ns ms : List Nat} {i : Nat} (h : i < ns.length) : changed (ns ++ ms) i = changed ns i := by
  simp [changed, List.getElem?_append_left h]

theorem onTables_ok {statements : List (Sql.Statement FactoryState)} {s s' : AuditedState} {n : Nat} {ns : List Nat} :
    Sql.runAll (statements.map onTables) s n = .ok (s', ns) ↔
      ∃ t, Sql.runAll statements s.tables n = .ok (t, ns) ∧ s' = s.put t :=
  @Sql.runAll_on_ok _ _ AuditedState.tables AuditedState.put (fun _ _ => rfl) (fun _ _ _ => rfl) (fun _ => rfl) _ _ _ _ _

/-- The batch with its log: whether the lease was found, and a longer log either way. -/
theorem batch_spec (s : AuditedState) (hjobs : JobsThere result imageJobs s.tables) : ∃ s' ns,
    Sql.batch (finishBatch runId attempt leaseToken result imageJobs timestamp) s = (.ok ns, s') ∧
      (changed ns (attemptIndex result imageJobs) = true ∧ changed ns (attemptIndex result imageJobs + 1) = true ↔
        Held runId attempt leaseToken timestamp s.tables) ∧
      s.auditEvents.length < s'.auditEvents.length := by
  obtain ⟨t, ns, htables, hlength, hheld⟩ := finishBatch_spec runId attempt s.tables hjobs
  obtain ⟨s', ms, haudit, hlog⟩ := auditBatch_spec runId attempt (s.put t) (ns.getLastD 0)
  have hrun := Sql.runAll_append_ok.mpr ⟨s.put t, ns, ms, onTables_ok.mpr ⟨t, htables, rfl⟩, haudit, rfl⟩
  refine ⟨s', ns ++ ms, ?_, ?_, hlog⟩
  · rw [Sql.batch, finishBatch, hrun]
  · rw [changed_append (by omega), changed_append (by omega)]
    exact hheld

/-- Where the table of image jobs is gone the batch is not written. -/
theorem batch_raises (s : AuditedState) (hjobs : ¬JobsThere result imageJobs s.tables) : ∃ raised,
    Sql.batch (finishBatch runId attempt leaseToken result imageJobs timestamp) s = (.error raised, s) := by
  have hnot : ∀ s' ns, Sql.runAll (finishBatch runId attempt leaseToken result imageJobs timestamp) s 0 ≠ .ok (s', ns) := by
    intro s' ns hrun
    obtain ⟨s₁, ns₁, -, htables, -, -⟩ := Sql.runAll_append_ok.mp hrun
    obtain ⟨t, htables, -⟩ := onTables_ok.mp htables
    apply hjobs
    intro hfailed himage
    rw [Server.finishBatch, if_pos hfailed, cancelBatch, if_pos himage] at htables
    obtain ⟨t₁, k, ns₂, hbuilds, hrest, -⟩ := Sql.runAll_cons_ok.mp htables
    obtain ⟨t₂, k', ns₃, hcancel, -, -⟩ := Sql.runAll_cons_ok.mp hrest
    cases hbuilds
    unfold cancelImageJobs at hcancel
    split at hcancel
    · cases hcancel
    · next jobs hsome =>
      exact Option.isSome_iff_exists.mpr ⟨jobs, hsome⟩
  rw [Sql.batch]
  cases hrun : Sql.runAll (finishBatch runId attempt leaseToken result imageJobs timestamp) s 0 with
  | error raised => exact ⟨raised, rfl⟩
  | ok result' => exact absurd hrun (hnot _ _)

end

/-! ## The call among others -/

/-- The runs, attempts, builds and log of two states are the same. -/
def SameTables (s s' : AuditedState) : Prop :=
  s'.tables.runs = s.tables.runs ∧ s'.tables.attempts = s.tables.attempts ∧ s'.tables.builds = s.tables.builds ∧
    s'.auditEvents = s.auditEvents

theorem SameTables.refl (s : AuditedState) : SameTables s s := ⟨rfl, rfl, rfl, rfl⟩

def Fenced (answer : Except FactoryThrow FactoryAttempt) : Prop :=
  ∃ message, answer = .error (.run "lease-fenced" message)

/-- Whenever the call throws that it is fenced, each of its steps left the tables as it found them. -/
def FencedUnchanged (found : Nat → AuditedState) (p : Prog AuditedState FactoryThrow FactoryAttempt) : Prop :=
  Fenced (p.answer found) → ∀ move ∈ p.moves found, SameTables move.1 move.2

/-- The call reaches its batch: its input is valid, the attempt is running, and its check
of the rows it reads finds the lease. -/
def ReachesBatch (runId : String) (attempt : Nat) (leaseToken : String) (result : FactoryAttemptResult)
    (found : Nat → AuditedState) : Prop :=
  requireIdentifier runId "run id" = .ok () ∧ requireIdentifier leaseToken "lease token" = .ok () ∧
    requireAttempt attempt = .ok () ∧ checkResult result = .ok () ∧
    ∃ current, attemptRow runId attempt (found 0).tables = some current ∧ current.status = .running ∧
      checkLease attempt leaseToken (found 2).tables.clock (runRow runId (found 1).tables) current = .ok ()

/-- The lease is lost between the check of the call and its batch. -/
def LosesLease (runId : String) (attempt : Nat) (leaseToken : String) (result : FactoryAttemptResult)
    (found : Nat → AuditedState) : Prop :=
  ReachesBatch runId attempt leaseToken result found ∧
    JobsThere result (found 3).tables.imageJobs.isSome (found 4).tables ∧
    ¬Held runId attempt leaseToken (found 2).tables.clock (found 4).tables

section
variable {found : Nat → AuditedState} {p : Prog AuditedState FactoryThrow FactoryAttempt}

theorem fencedUnchanged_fail (e : FactoryThrow) : FencedUnchanged found (fail e) := fun _ _ hmem => nomatch hmem

theorem fencedUnchanged_ofExcept (x : Except FactoryThrow FactoryAttempt) : FencedUnchanged found (ofExcept x) := by
  cases x with
  | ok a => exact fun _ _ hmem => nomatch hmem
  | error e => exact fencedUnchanged_fail e

/-- A step that reads changes nothing. -/
theorem fencedUnchanged_read {α : Type} {view : AuditedState → α}
    {f : α → Prog AuditedState FactoryThrow FactoryAttempt} : FencedUnchanged found (read view >>= f) ↔
      FencedUnchanged (fun n => found (n + 1)) (f (view (found 0))) := by
  unfold FencedUnchanged
  rw [answer_read_bind, moves_read_bind, List.forall_mem_cons]
  exact ⟨fun h hf => (h hf).2, fun h hf => ⟨.refl _, h hf⟩⟩

theorem fencedUnchanged_check {x : Except FactoryThrow Unit} {f : Unit → Prog AuditedState FactoryThrow FactoryAttempt} :
    FencedUnchanged found (ofExcept x >>= f) ↔ (x = .ok () → FencedUnchanged found (f ())) := by
  cases x with
  | ok u => exact ⟨fun h _ => h, fun h => h rfl⟩
  | error e => exact iff_of_true (fencedUnchanged_fail e) fun h => nomatch h

end

section
variable {runId leaseToken : String} {attempt : Nat} {result : FactoryAttemptResult} {found : Nat → AuditedState}

/-- What the call does once its check has found the lease. -/
def writeResult (runId : String) (attempt : Nat) (leaseToken : String) (result : FactoryAttemptResult)
    (timestamp : Int) : Prog AuditedState FactoryThrow FactoryAttempt := do
  let imageJobsAvailable ← read (·.tables.imageJobs.isSome)
  let results ← Sql.run (finishBatch runId attempt leaseToken result imageJobsAvailable timestamp) .database
  if !changed results (attemptIndex result imageJobsAvailable) ||
      !changed results (attemptIndex result imageJobsAvailable + 1) then
    fail (.run "lease-fenced" "Factory attempt lease is fenced.")
  else
    let finished ← read fun s => attemptRow runId attempt s.tables
    match finished with
    | none => fail (.run "storage" "Factory attempt result was not persisted.")
    | some a => pure a

theorem finishFactoryAttempt_eq : finishFactoryAttempt runId attempt leaseToken result = (do
    let _ ← ofExcept (requireIdentifier runId "run id")
    let _ ← ofExcept (requireIdentifier leaseToken "lease token")
    let _ ← ofExcept (requireAttempt attempt)
    let _ ← ofExcept (checkResult result)
    let found ← read fun s => attemptRow runId attempt s.tables
    match found with
    | none => fail (.run "not-found" "Factory attempt not found.")
    | some current =>
      if current.status ≠ .running then ofExcept (repeatedResult result current)
      else
        let run ← read fun s => runRow runId s.tables
        let timestamp ← read (·.tables.clock)
        let _ ← ofExcept (checkLease attempt leaseToken timestamp run current)
        writeResult runId attempt leaseToken result timestamp) := rfl

/-- Once the check has found the lease, a call that throws that it is fenced has written its log. -/
theorem writeResult_fencedUnchanged (timestamp : Int) :
    FencedUnchanged found (writeResult runId attempt leaseToken result timestamp) ↔
      ¬(JobsThere result (found 0).tables.imageJobs.isSome (found 1).tables ∧
        ¬Held runId attempt leaseToken timestamp (found 1).tables) := by
  rw [writeResult, fencedUnchanged_read]
  generalize (found 0).tables.imageJobs.isSome = imageJobs
  unfold FencedUnchanged
  rw [Sql.answer_run_bind, Sql.moves_run_bind, List.forall_mem_cons]
  by_cases hthere : JobsThere result imageJobs (found 1).tables
  · obtain ⟨s', ns, hbatch, hheld, hlog⟩ :=
      @batch_spec runId leaseToken attempt result imageJobs timestamp (found 1) hthere
    rw [Nat.zero_add, hbatch]
    by_cases hlease : Held runId attempt leaseToken timestamp (found 1).tables
    · -- both updates found a row
      obtain ⟨hattempt, hrun⟩ := hheld.mpr hlease
      refine iff_of_true (fun hf => absurd hf ?_) fun h => h.2 hlease
      simp only [hattempt, hrun, Bool.not_true, Bool.or_self, Bool.false_eq_true, if_false]
      rw [answer_read_bind]
      rintro ⟨message, hanswer⟩
      split at hanswer
      · exact absurd (FactoryThrow.run.inj (Except.error.inj hanswer)).1 (by decide)
      · cases hanswer
    · -- the updates did not, and the log is longer
      have hnot : (!changed ns (attemptIndex result imageJobs) || !changed ns (attemptIndex result imageJobs + 1)) = true := by
        have := mt hheld.mp hlease
        cases h1 : changed ns (attemptIndex result imageJobs) <;>
          cases h2 : changed ns (attemptIndex result imageJobs + 1) <;> simp_all
      refine iff_of_false (fun h => ?_) fun h => h ⟨hthere, hlease⟩
      simp only [hnot, if_true] at h
      have hsame := (h ⟨_, rfl⟩).1
      have hlength := congrArg List.length hsame.2.2.2
      omega
  · obtain ⟨raised, hbatch⟩ := @batch_raises runId leaseToken attempt result imageJobs timestamp (found 1) hthere
    rw [Nat.zero_add, hbatch]
    refine iff_of_true (fun hf => absurd hf ?_) fun h => hthere h.1
    rintro ⟨message, hanswer⟩
    cases hanswer

end

/-- The call keeps the tables when it is fenced exactly when it does not lose its lease
between the check and the batch. -/
theorem finish_fenced_unchanged (runId : String) (attempt : Nat) (leaseToken : String) (result : FactoryAttemptResult)
    (found : Nat → AuditedState) :
    FencedUnchanged found (finishFactoryAttempt runId attempt leaseToken result) ↔
      ¬LosesLease runId attempt leaseToken result found := by
  rw [finishFactoryAttempt_eq, fencedUnchanged_check, fencedUnchanged_check, fencedUnchanged_check, fencedUnchanged_check,
    fencedUnchanged_read]
  unfold LosesLease ReachesBatch
  constructor
  · rintro h ⟨⟨hrun, htoken, hattempt, hresult, current, hfound, hrunning, hlease⟩, hthere, hheld⟩
    have hrest := h hrun htoken hattempt hresult
    rw [hfound] at hrest
    simp only [hrunning, ne_eq, not_true, if_false] at hrest
    rw [fencedUnchanged_read, fencedUnchanged_read, fencedUnchanged_check] at hrest
    exact (writeResult_fencedUnchanged _).mp (hrest hlease) ⟨hthere, hheld⟩
  · intro h hrun htoken hattempt hresult
    cases hfound : attemptRow runId attempt (found 0).tables with
    | none => exact fencedUnchanged_fail _
    | some current =>
      by_cases hrunning : current.status = .running
      · simp only [hrunning, ne_eq, not_true, if_false]
        rw [fencedUnchanged_read, fencedUnchanged_read, fencedUnchanged_check]
        intro hlease
        refine (writeResult_fencedUnchanged _).mpr fun hlost => h ⟨?_, hlost⟩
        exact ⟨hrun, htoken, hattempt, hresult, current, hfound, hrunning, hlease⟩
      · simp only [ne_eq, hrunning, not_false_eq_true, if_true]
        exact fencedUnchanged_ofExcept _

/-! ## A run stopped in between -/

def heldAttempt : FactoryAttempt where
  id := "attempt"
  runId := "run"
  attempt := 1
  reservationKey := "key"
  status := .running
  candidateRevisionId := none
  candidateSha256 := ""
  inputSha256 := ""
  architecture := none
  candidate := .null
  failureKind := none
  failure := none
  artifact := none
  buildIds := []
  dispatchId := none
  leaseToken := "token"
  leaseExpiresAt := 100
  startedAt := 0
  finishedAt := none
  createdAt := 0
  updatedAt := 0

def heldRun : FactoryRun where
  id := "run"
  status := .running
  attemptCount := 1
  currentAttempt := some 1
  successfulAttempt := none
  policy := .null
  artifact := none
  failure := none
  leaseToken := some "token"
  leaseExpiresAt := some 100
  updatedAt := 0

def heldState : FactoryState where
  clock := 1
  runs := [heldRun]
  attempts := [heldAttempt]
  builds := []
  imageJobs := none
  taken := []
  resumed := []
  executed := []
  redelivered := 0

/-- The run is stopped after the call has checked its lease. -/
def stoppedBetween (n : Nat) : AuditedState :=
  if n < 4 then ⟨heldState, []⟩ else ⟨((stopFactoryRun "run" (units "Stop.") none).run heldState).2, []⟩

def succeededResult : FactoryAttemptResult := ⟨.succeeded, none, none, none⟩

/-- The call throws that it is fenced, and its log says that the attempt succeeded. -/
theorem stopped_writes : Fenced ((finishFactoryAttempt "run" 1 "token" succeededResult).answer stoppedBetween) ∧
    ∃ move ∈ (finishFactoryAttempt "run" 1 "token" succeededResult).moves stoppedBetween, ¬SameTables move.1 move.2 := by
  refine ⟨⟨"Factory attempt lease is fenced.", rfl⟩, ?_⟩
  have hlogs : ((finishFactoryAttempt "run" 1 "token" succeededResult).moves stoppedBetween).map
      (fun move => (move.1.auditEvents.length, move.2.auditEvents.length)) = [(0, 0), (0, 0), (0, 0), (0, 0), (0, 1)] := rfl
  have hlast : (0, 1) ∈ ((finishFactoryAttempt "run" 1 "token" succeededResult).moves stoppedBetween).map
      (fun move => (move.1.auditEvents.length, move.2.auditEvents.length)) := by
    rw [hlogs]
    decide
  obtain ⟨move, hmem, hlog⟩ := List.mem_map.mp hlast
  refine ⟨move, hmem, fun hsame => ?_⟩
  obtain ⟨hbefore, hafter⟩ := Prod.mk.inj hlog
  rw [hsame.2.2.2, hbefore] at hafter
  cases hafter

end Omapkg.Server.Audited
