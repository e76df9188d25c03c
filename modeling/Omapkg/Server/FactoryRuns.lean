import Omapkg.Lib.Sql
import Omapkg.Server.Validate
/-!
# Factory runs

The run and attempt tables of `src/src/lib/server/factory-runs.ts`: reserving,
renewing and finishing an attempt, and stopping a run. A text column of JSON is
the value it spells. The triggers that keep what is complete are not needed:
no statement here would fire them.
-/

namespace Omapkg.Server

open Utf Json Prog

def factoryMaxAttempts : Nat := 3

/-! ## Rows -/

inductive FactoryRunStatus where
  | queued | running | succeeded | needsHumanIntervention | cancelled
  deriving DecidableEq, Repr

inductive FactoryAttemptStatus where
  | running | succeeded | failed
  deriving DecidableEq, Repr

inductive FactoryFailureKind where
  | build | validation | dependency | analysis | runtime | reproducibility | policy | infrastructure
  deriving DecidableEq, Repr

def FactoryFailureKind.text : FactoryFailureKind → String
  | build => "build"
  | validation => "validation"
  | dependency => "dependency"
  | analysis => "analysis"
  | runtime => "runtime"
  | reproducibility => "reproducibility"
  | policy => "policy"
  | infrastructure => "infrastructure"

/-- A row of `factory_runs`; every one has three attempts at most. -/
structure FactoryRun where
  id : String
  status : FactoryRunStatus
  attemptCount : Nat
  currentAttempt : Option Nat
  successfulAttempt : Option Nat
  policy : Json JsString
  artifact : Option (Json JsString)
  failure : Option (Json JsString)
  leaseToken : Option String
  leaseExpiresAt : Option Int
  updatedAt : Int

/-- A row of `factory_run_attempts`. -/
structure FactoryAttempt where
  id : String
  runId : String
  attempt : Nat
  reservationKey : String
  status : FactoryAttemptStatus
  candidateRevisionId : Option String
  candidateSha256 : String
  inputSha256 : String
  architecture : Option Architecture
  candidate : Json JsString
  failureKind : Option FactoryFailureKind
  failure : Option (Json JsString)
  artifact : Option (Json JsString)
  buildIds : List String
  dispatchId : Option String
  leaseToken : String
  leaseExpiresAt : Int
  startedAt : Int
  finishedAt : Option Int
  createdAt : Int
  updatedAt : Int

inductive JobStatus where
  | queued | leased | succeeded | failed | cancelled
  deriving DecidableEq, Repr

/-- What is read of `builds` when a run ends. -/
structure FactoryBuild where
  id : String
  runId : Option String
  attempt : Option Nat
  privateCandidate : Bool
  status : JobStatus

/-- What is read of `factory_image_jobs`. -/
structure FactoryImageJob where
  id : String
  runId : String
  attempt : Nat
  status : JobStatus
  error : Option JsString
  finishedAt : Option Int

/-- The tables and the clock. The last four fields are no columns: they note
which attempts a repair loop has reserved, taken up again and executed, and how
often one was given an attempt that it had not reserved. -/
structure FactoryState where
  clock : Int
  runs : List FactoryRun
  attempts : List FactoryAttempt
  builds : List FactoryBuild
  imageJobs : Option (List FactoryImageJob)
  taken : List (Nat × String × Nat)
  resumed : List (Nat × String × Nat)
  executed : List (String × Nat)
  redelivered : Nat

def runRow (runId : String) (s : FactoryState) : Option FactoryRun := s.runs.find? (·.id = runId)

def attemptRow (runId : String) (attempt : Nat) (s : FactoryState) : Option FactoryAttempt :=
  s.attempts.find? fun a => a.runId = runId && a.attempt = attempt

/-! ## Errors and input checks -/

/-- What is thrown: a `FactoryRunError`, what the database raised, or what the
caller's own code threw. -/
inductive FactoryThrow where
  | run (code message : String)
  | database (raised : Sql.Raised)
  | cause (message : Option JsString)
  deriving DecidableEq

/-- A letter or digit, then at most 255 of those, `_`, `.`, `:`, `/` and `-`. -/
def isFactoryIdentifier (value : String) : Bool :=
  match value.toList with
  | [] => false
  | c :: cs => isAlnum c && cs.all (fun c => isIdChar c || c = ':' || c = '/') && cs.length ≤ 255

def requireIdentifier (value field : String) : Except FactoryThrow Unit :=
  if isFactoryIdentifier value then .ok () else .error (.run "invalid-input" s!"Invalid {field}.")

def requireDigest (value field : String) : Except FactoryThrow Unit :=
  if Hash.isHexDigest value.toList then .ok () else .error (.run "invalid-input" s!"Invalid {field}.")

def requireLease (leaseSeconds : Int) : Except FactoryThrow Unit :=
  if leaseSeconds < 30 ∨ leaseSeconds > 24 * 60 * 60 then
    .error (.run "invalid-input" "Invalid factory attempt lease.")
  else .ok ()

def requireAttempt (attempt : Nat) : Except FactoryThrow Unit :=
  if attempt < 1 ∨ attempt > factoryMaxAttempts then .error (.run "invalid-input" "Invalid factory attempt.")
  else .ok ()

/-- What a text column of JSON holds for a value. -/
def column (value : Json JsString) : Json JsString := canonicalValue value

/-- `value ?? other`. -/
def coalesce (value : Option (Json JsString)) (other : Json JsString) : Json JsString :=
  match value with
  | none | some .null => other
  | some value => value

/-- The text of such a column. -/
def columnText (value : Json JsString) : List Char := value.print jsQuote

/-! ## Statements -/

def updateRuns (p : FactoryState → Nat → FactoryRun → Bool) (f : FactoryRun → FactoryRun) : Sql.Statement FactoryState :=
  fun s n => .ok ({ s with runs := (Sql.update (p s n) f s.runs).1 }, (Sql.update (p s n) f s.runs).2)

def updateAttempts (p : FactoryState → FactoryAttempt → Bool) (f : FactoryAttempt → FactoryAttempt) :
    Sql.Statement FactoryState :=
  fun s _ => .ok ({ s with attempts := (Sql.update (p s) f s.attempts).1 }, (Sql.update (p s) f s.attempts).2)

/-- `UPDATE builds SET status='cancelled'` of the private builds of an attempt. -/
def cancelBuilds (p : FactoryState → FactoryBuild → Bool) : Sql.Statement FactoryState := fun s _ =>
  let (builds, n) := Sql.update
    (fun b => p s b && b.privateCandidate && (b.status = .queued || b.status = .leased))
    (fun b => { b with status := .cancelled }) s.builds
  .ok ({ s with builds }, n)

def cancelImageJobs (p : FactoryState → FactoryImageJob → Bool) (error : JsString) (timestamp : Int) :
    Sql.Statement FactoryState := fun s _ =>
  match s.imageJobs with
  | none => .error ⟨"no such table: factory_image_jobs"⟩
  | some jobs =>
    let (jobs, n) := Sql.update (fun j => p s j && (j.status = .queued || j.status = .leased))
      (fun j => { j with status := .cancelled, error := some error, finishedAt := some timestamp }) jobs
    .ok ({ s with imageJobs := some jobs }, n)

def changed (results : List Nat) (n : Nat) : Bool := results.getD n 0 > 0

/-! ## Stopping a run -/

def isOpen (status : FactoryRunStatus) : Bool := status = .queued || status = .running

/-- `(SELECT current_attempt FROM factory_runs WHERE id=? AND status IN ('queued','running'))`. -/
def openAttempt (runId : String) (s : FactoryState) : Option Nat :=
  (s.runs.find? fun run => run.id = runId && isOpen run.status).bind (·.currentAttempt)

def stopBatch (runId : String) (reason : JsString) (failureKind : FactoryFailureKind) (failure : Json JsString)
    (imageJobs : Bool) (timestamp : Int) : List (Sql.Statement FactoryState) :=
  [ updateAttempts (fun s a => a.runId = runId && openAttempt runId s = some a.attempt && a.status = .running)
      fun a => { a with status := .failed, failureKind := some failureKind, failure := some failure,
                        finishedAt := some timestamp, leaseExpiresAt := timestamp, updatedAt := timestamp },
    cancelBuilds fun s b => b.runId = some runId && b.attempt.isSome && b.attempt = openAttempt runId s ] ++
  (if imageJobs then
    [cancelImageJobs (fun s j => j.runId = runId && openAttempt runId s = some j.attempt) reason timestamp]
   else []) ++
  [ updateRuns (fun _ _ run => run.id = runId && isOpen run.status)
      fun run => { run with status := .needsHumanIntervention, failure := some failure, leaseToken := none,
                            leaseExpiresAt := none, updatedAt := timestamp } ]

def stopReason (reason : JsString) : Except FactoryThrow JsString :=
  if (trim reason).take 2000 = [] then .error (.run "invalid-input" "A factory stop reason is required.")
  else .ok ((trim reason).take 2000)

def stopFactoryRun (runId : String) (reason : JsString) (policy : Option (Json JsString)) :
    Prog FactoryState FactoryThrow FactoryRun := do
  let _ ← ofExcept (requireIdentifier runId "run id")
  let cleanReason ← ofExcept (stopReason reason)
  let timestamp ← read (·.clock)
  let failure : Json JsString := .obj ([(units "reason", .str cleanReason)] ++
    (match policy with | none => [] | some policy => [(units "policy", policy)]))
  let failureKind : FactoryFailureKind := if policy.isNone then .infrastructure else .policy
  let imageJobsAvailable ← read (·.imageJobs.isSome)
  let _ ← Sql.run (stopBatch runId cleanReason failureKind (column failure) imageJobsAvailable timestamp) .database
  let row ← read (runRow runId)
  match row with
  | none => fail (.run "not-found" "Factory run not found.")
  | some run => pure run

/-! ## Reserving an attempt -/

structure FactoryAttemptInput where
  runId : String
  reservationKey : String
  candidateSha256 : String
  inputSha256 : String
  candidate : Option (Json JsString)
  candidateRevisionId : Option String
  architecture : Option Architecture
  policy : Option (Json JsString)
  leaseSeconds : Option Int

def FactoryAttemptInput.lease (input : FactoryAttemptInput) : Int := input.leaseSeconds.getD (30 * 60)

def checkReservation (input : FactoryAttemptInput) : Except FactoryThrow Unit := do
  requireIdentifier input.runId "run id"
  requireIdentifier input.reservationKey "reservation key"
  requireDigest input.candidateSha256 "candidate digest"
  requireDigest input.inputSha256 "input digest"
  match input.candidateRevisionId with
  | some revision => if revision = "" then .ok () else requireIdentifier revision "candidate revision id"
  | none => .ok ()
  requireLease input.lease

def reserved (input : FactoryAttemptInput) (s : FactoryState) : Option FactoryAttempt :=
  s.attempts.find? fun a => a.runId = input.runId && a.reservationKey = input.reservationKey

/-- An attempt with the reservation key must be of the same candidate. -/
def sameCandidate (input : FactoryAttemptInput) (a : FactoryAttempt) : Except FactoryThrow FactoryAttempt :=
  if a.candidateSha256 ≠ input.candidateSha256 ∨ a.inputSha256 ≠ input.inputSha256 ∨
      (input.candidateRevisionId.isSome ∧ a.candidateRevisionId ≠ input.candidateRevisionId) ∨
      (input.architecture.isSome ∧ a.architecture ≠ input.architecture) ∨
      (input.candidate.isSome ∧ columnText a.candidate ≠ canonicalJson (coalesce input.candidate (.obj []))) then
    .error (.run "reservation-conflict" "Reservation key is bound to different candidate inputs.")
  else .ok a

/-- The run must be there and open. -/
def reservableRun : Option FactoryRun → Except FactoryThrow FactoryRun
  | none => .error (.run "not-found" "Factory run not found.")
  | some run =>
    match run.status with
    | .succeeded => .error (.run "run-succeeded" "Factory run already has a successful artifact.")
    | .needsHumanIntervention =>
      if run.attemptCount ≥ factoryMaxAttempts then
        .error (.run "budget-exhausted" "Factory build budget exhausted; human intervention is required.")
      else .error (.run "human-intervention" "Factory run requires human intervention.")
    | .cancelled => .error (.run "human-intervention" "Factory run requires human intervention.")
    | .queued | .running => .ok run

def reserveRow (input : FactoryAttemptInput) (attempt : Nat) (attemptId leaseToken : String) (timestamp : Int) :
    FactoryAttempt where
  id := attemptId
  runId := input.runId
  attempt := attempt
  reservationKey := input.reservationKey
  status := .running
  candidateRevisionId := input.candidateRevisionId
  candidateSha256 := input.candidateSha256
  inputSha256 := input.inputSha256
  architecture := input.architecture
  candidate := column (coalesce input.candidate (.obj []))
  failureKind := none
  failure := none
  artifact := none
  buildIds := []
  dispatchId := none
  leaseToken := leaseToken
  leaseExpiresAt := timestamp + input.lease
  startedAt := timestamp
  finishedAt := none
  createdAt := timestamp
  updatedAt := timestamp

/-- `UNIQUE(run_id,attempt)`, `UNIQUE(run_id,reservation_key)` and the primary key. -/
def attemptClashes (row a : FactoryAttempt) : Bool :=
  a.id = row.id || (a.runId = row.runId && (a.attempt = row.attempt || a.reservationKey = row.reservationKey))

/-- Takes the next number of the run and adds the attempt's row. The `taker`, a
repair loop, is noted with what it takes. -/
def reserveBatch (taker : Option Nat) (row : FactoryAttempt) (attemptCount : Nat) :
    List (Sql.Statement FactoryState) :=
  [ updateRuns (fun _ _ run => run.id = row.runId && run.status = .queued && run.attemptCount = attemptCount)
      fun run => { run with status := .running, attemptCount := row.attempt, currentAttempt := some row.attempt,
                            leaseToken := some row.leaseToken, leaseExpiresAt := some row.leaseExpiresAt,
                            updatedAt := row.startedAt },
    fun s n =>
      if n = 1 then do
        let (attempts, n) ← Sql.insert (attemptClashes row) "UNIQUE constraint failed: factory_run_attempts" row s.attempts
        .ok ({ s with attempts, taken := (taker.map fun me => (me, row.runId, row.attempt)).toList ++ s.taken }, n)
      else .ok (s, 0) ]

/-- Looks an attempt up by its reservation key; a loop that finds one it can
execute is noted. -/
def findReserved (taker : Option Nat) (input : FactoryAttemptInput) (s : FactoryState) :
    Except FactoryThrow (Option FactoryAttempt) × FactoryState :=
  (.ok (reserved input s),
    match taker, reserved input s with
    | some _, some a => if a.status = .succeeded then s else { s with redelivered := s.redelivered + 1 }
    | _, _ => s)

/-- Whether a live lease holds the run, by the clock. -/
def busy (run : FactoryRun) (now : Int) : Bool := run.status = .running && run.leaseExpiresAt.any (· > now)

def expired (run : FactoryRun) (now : Int) : Bool := run.status = .running && run.leaseExpiresAt.any (· ≤ now)

def reserveFactoryAttempt (taker : Option Nat) (input : FactoryAttemptInput) (attemptId leaseToken : String) :
    Prog FactoryState FactoryThrow FactoryAttempt := do
  let _ ← ofExcept (checkReservation input)
  let existing ← transact (findReserved taker input)
  match existing with
  | some a => ofExcept (sameCandidate input a)
  | none =>
    let found ← read (runRow input.runId)
    let run ← ofExcept (reservableRun found)
    if columnText run.policy ≠ canonicalJson (coalesce input.policy run.policy) then
      let _ ← stopFactoryRun input.runId (units "Execution policy expanded or changed.")
        (some (coalesce input.policy run.policy))
      fail (.run "policy-stop" "Factory policy changed; human intervention is required.")
    else
      let busyNow ← read (·.clock)
      if busy run busyNow then
        fail (.run "attempt-busy" "Factory run already has a live attempt lease.")
      else
        let expiredNow ← read (·.clock)
        if expired run expiredNow then
          let _ ← stopFactoryRun input.runId (units "Attempt lease expired; execution status is ambiguous.") none
          fail (.run "human-intervention" "Factory attempt lease expired; reconcile before retrying.")
        else if run.attemptCount + 1 > factoryMaxAttempts then
          let _ ← stopFactoryRun input.runId (units "Factory build budget exhausted.") none
          fail (.run "budget-exhausted" "Factory build budget exhausted; human intervention is required.")
        else
          let timestamp ← read (·.clock)
          let row := reserveRow input (run.attemptCount + 1) attemptId leaseToken timestamp
          let results ← Sql.run (reserveBatch taker row run.attemptCount) .database
          if !changed results 0 || !changed results 1 then
            -- this lookup does not compare the candidate
            let raced ← transact (findReserved taker input)
            match raced with
            | some a => pure a
            | none => fail (.run "attempt-busy" "Factory run changed while reserving an attempt.")
          else
            let row ← read (attemptRow input.runId (run.attemptCount + 1))
            match row with
            | none => fail (.run "storage" "Factory attempt was not persisted.")
            | some a => pure a

/-! ## Renewing a lease -/

def renewBatch (runId : String) (attempt : Nat) (leaseToken : String) (timestamp expires : Int) :
    List (Sql.Statement FactoryState) :=
  [ updateAttempts
      (fun s a => a.runId = runId && a.attempt = attempt && a.leaseToken = leaseToken && a.status = .running &&
        a.leaseExpiresAt > timestamp &&
        s.runs.any fun run => run.id = runId && run.currentAttempt = some attempt &&
          run.leaseToken = some leaseToken && run.status = .running && run.leaseExpiresAt.any (· > timestamp))
      fun a => { a with leaseExpiresAt := expires, updatedAt := timestamp },
    updateRuns
      (fun _ n run => run.id = runId && run.currentAttempt = some attempt && run.leaseToken = some leaseToken &&
        run.status = .running && n = 1)
      fun run => { run with leaseExpiresAt := some expires, updatedAt := timestamp } ]

def renewFactoryAttempt (runId : String) (attempt : Nat) (leaseToken : String) (leaseSeconds : Int) :
    Prog FactoryState FactoryThrow FactoryAttempt := do
  let _ ← ofExcept (requireIdentifier runId "run id")
  let _ ← ofExcept (requireIdentifier leaseToken "lease token")
  let _ ← ofExcept (requireAttempt attempt)
  let _ ← ofExcept (requireLease leaseSeconds)
  let timestamp ← read (·.clock)
  let results ← Sql.run (renewBatch runId attempt leaseToken timestamp (timestamp + leaseSeconds)) .database
  if !changed results 0 || !changed results 1 then
    fail (.run "lease-fenced" "Factory attempt lease is fenced or expired.")
  else
    let row ← read (attemptRow runId attempt)
    match row with
    | none => fail (.run "not-found" "Factory attempt not found.")
    | some a => pure a

/-! ## Finishing an attempt -/

/-- How an attempt ends; one that failed says how. -/
inductive FactoryOutcome where
  | succeeded | failed
  deriving DecidableEq, Repr

def FactoryOutcome.status : FactoryOutcome → FactoryAttemptStatus
  | succeeded => .succeeded
  | failed => .failed

structure FactoryAttemptResult where
  outcome : FactoryOutcome
  artifact : Option (Json JsString)
  failureKind : Option FactoryFailureKind
  failure : Option (Json JsString)

def checkResult (result : FactoryAttemptResult) : Except FactoryThrow Unit :=
  if result.outcome = .failed ∧ result.failureKind = none then
    .error (.run "invalid-input" "Failed factory attempts require a failure kind.")
  else .ok ()

/-- A repeated result is answered with what is stored; any other is refused. -/
def repeatedResult (result : FactoryAttemptResult) (current : FactoryAttempt) : Except FactoryThrow FactoryAttempt :=
  if current.status = result.outcome.status ∧ (result.outcome ≠ .succeeded ∨
      canonicalJson (coalesce current.artifact .null) = canonicalJson (coalesce result.artifact .null)) then .ok current
  else .error (.run "attempt-complete" "Factory attempt is already complete.")

/-- The run and the attempt are running under this unexpired lease. -/
def checkLease (attempt : Nat) (leaseToken : String) (timestamp : Int) (run : Option FactoryRun)
    (current : FactoryAttempt) : Except FactoryThrow Unit :=
  match run with
  | none => .error (.run "lease-fenced" "Factory attempt lease is fenced or expired.")
  | some run =>
    if run.status ≠ .running ∨ run.currentAttempt ≠ some attempt ∨ run.leaseToken ≠ some leaseToken ∨
        run.leaseExpiresAt.any (· > timestamp) = false ∨ current.leaseToken ≠ leaseToken ∨
        current.leaseExpiresAt ≤ timestamp then
      .error (.run "lease-fenced" "Factory attempt lease is fenced or expired.")
    else .ok ()

/-- A success ends the run; a failure queues it again, unless it is one of
policy or the third. -/
def runStatusAfter (attempt : Nat) (result : FactoryAttemptResult) : FactoryRunStatus :=
  match result.outcome with
  | .succeeded => .succeeded
  | .failed =>
    if result.failureKind = some .policy ∨ attempt ≥ factoryMaxAttempts then .needsHumanIntervention else .queued

def runFailure (result : FactoryAttemptResult) : Option (Json JsString) :=
  match result.outcome with
  | .succeeded => none
  | .failed =>
    match result.failure with
    | some failure => some (column failure)
    | none =>
      some (column (.obj [(units "message", .str (units "factory attempt failed")),
        (units "kind", ((result.failureKind.map fun kind => Json.str (units kind.text)).getD .null))]))

/-- What a failure cancels. -/
def cancelBatch (runId : String) (attempt : Nat) (imageJobs : Bool) (timestamp : Int) :
    List (Sql.Statement FactoryState) :=
  cancelBuilds (fun _ b => b.runId = some runId && b.attempt = some attempt) ::
    (if imageJobs then
      [cancelImageJobs (fun _ j => j.runId = runId && j.attempt = attempt) (units "factory attempt failed") timestamp]
     else [])

def endBatch (runId : String) (attempt : Nat) (leaseToken : String) (result : FactoryAttemptResult)
    (timestamp : Int) : List (Sql.Statement FactoryState) :=
  [ updateAttempts
      (fun _ a => a.runId = runId && a.attempt = attempt && a.status = .running && a.leaseToken = leaseToken &&
        a.leaseExpiresAt > timestamp)
      fun a => { a with status := result.outcome.status, failureKind := result.failureKind,
                        failure := result.failure.map column, artifact := result.artifact.map column,
                        finishedAt := some timestamp, leaseExpiresAt := timestamp, updatedAt := timestamp },
    updateRuns
      (fun s _ run => run.id = runId && run.status = .running && run.currentAttempt = some attempt &&
        run.leaseToken = some leaseToken &&
        s.attempts.any fun a => a.runId = runId && a.attempt = attempt && a.status = result.outcome.status &&
          a.leaseToken = leaseToken)
      fun run => { run with
        status := runStatusAfter attempt result
        successfulAttempt := if result.outcome = .succeeded then some attempt else none
        artifact := if result.outcome = .succeeded then result.artifact.map column else none
        failure := runFailure result
        leaseToken := none, leaseExpiresAt := none, updatedAt := timestamp } ]

def finishBatch (runId : String) (attempt : Nat) (leaseToken : String) (result : FactoryAttemptResult)
    (imageJobs : Bool) (timestamp : Int) : List (Sql.Statement FactoryState) :=
  (if result.outcome = .failed then cancelBatch runId attempt imageJobs timestamp else []) ++
    endBatch runId attempt leaseToken result timestamp

def finishFactoryAttempt (runId : String) (attempt : Nat) (leaseToken : String) (result : FactoryAttemptResult) :
    Prog FactoryState FactoryThrow FactoryAttempt := do
  let _ ← ofExcept (requireIdentifier runId "run id")
  let _ ← ofExcept (requireIdentifier leaseToken "lease token")
  let _ ← ofExcept (requireAttempt attempt)
  let _ ← ofExcept (checkResult result)
  let found ← read (attemptRow runId attempt)
  match found with
  | none => fail (.run "not-found" "Factory attempt not found.")
  | some current =>
    if current.status ≠ .running then ofExcept (repeatedResult result current)
    else
      let run ← read (runRow runId)
      let timestamp ← read (·.clock)
      let _ ← ofExcept (checkLease attempt leaseToken timestamp run current)
      let imageJobsAvailable ← read (·.imageJobs.isSome)
      let results ← Sql.run (finishBatch runId attempt leaseToken result imageJobsAvailable timestamp) .database
      let attemptIndex := if result.outcome = .failed then 1 + imageJobsAvailable.toNat else 0
      if !changed results attemptIndex || !changed results (attemptIndex + 1) then
        fail (.run "lease-fenced" "Factory attempt lease is fenced.")
      else
        let finished ← read (attemptRow runId attempt)
        match finished with
        | none => fail (.run "storage" "Factory attempt result was not persisted.")
        | some a => pure a

end Omapkg.Server
