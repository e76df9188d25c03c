import Mathlib.Data.List.Sort
import Omapkg.Lib.Pool
import Omapkg.Lib.Utf
/-!
# Publication jobs

`services/pipeline/publication-dispatch.ts` and `publication.ts`: the job of a
build is queued, a workflow instance is created or restarted for it, and both
the dispatcher and the workflow's run record on the job row how it went. The
workflow service keeps one instance for a build; a call to it may be answered,
refused, or take effect while its answer is lost.
-/

namespace Omapkg.Server.Publication

open Utf Prog

/-! ## State -/

inductive PublicationStatus where
  | queued | dispatched | completed | failed
  deriving DecidableEq, Repr

/-- A row of `publication_jobs`. -/
structure PublicationJob where
  buildId : String
  status : PublicationStatus
  attempts : Nat
  nextAttemptAt : Int
  lastError : Option CodeUnits
  createdAt : Int
  updatedAt : Int

/-- Where an instance is. One that is `failing` runs for the service: its run
has recorded the failure and is about to throw. -/
inductive Stage where
  | queued | running | failing | errored | terminated | complete
  deriving DecidableEq, Repr

/-- The instance `publish-<build>`. A restart begins a new generation and ends
the run of the old one. -/
structure Instance where
  generation : Nat
  stage : Stage
  deriving DecidableEq, Repr

/-- The tables, and the instances by their build. `releases` has the release
of a build, `cohorts` the cohort of a build of one. -/
structure PublicationState where
  clock : Int
  jobs : List PublicationJob
  releases : String → Option String
  cohorts : String → Option String
  instances : String → Option Instance

def PublicationState.job (s : PublicationState) (buildId : String) : Option PublicationJob :=
  s.jobs.find? fun j => j.buildId = buildId

def PublicationState.status (s : PublicationState) (buildId : String) : Option PublicationStatus :=
  (s.job buildId).map PublicationJob.status

def PublicationState.stage (s : PublicationState) (buildId : String) : Option Stage :=
  (s.instances buildId).map Instance.stage

/-! ## The job row -/

/-- `UPDATE` of the row of a build. -/
def updateJob (f : PublicationJob → PublicationJob) (buildId : String) (jobs : List PublicationJob) :
    List PublicationJob := jobs.map fun j => if j.buildId = buildId then f j else j

/-- `ON CONFLICT DO UPDATE` of `mark`: a completed job stays as it is. -/
def remark (status : PublicationStatus) (nextAttemptAt : Int) (error : Option CodeUnits) (now : Int)
    (j : PublicationJob) : PublicationJob :=
  if j.status = .completed ∧ status ≠ .completed then { j with updatedAt := now }
  else { j with
    status := status, attempts := j.attempts + 1, nextAttemptAt := nextAttemptAt, lastError := error, updatedAt := now }

def markJob (buildId : String) (status : PublicationStatus) (error : Option String) (s : PublicationState) :
    PublicationState :=
  let nextAttemptAt := if status = .failed then s.clock + 60 else s.clock
  let lastError := error.map fun e => (units e).take 1000
  if (s.job buildId).isSome then
    { s with jobs := updateJob (remark status nextAttemptAt lastError s.clock) buildId s.jobs }
  else
    { s with jobs := s.jobs ++ [⟨buildId, status, 1, nextAttemptAt, lastError, s.clock, s.clock⟩] }

def mark (buildId : String) (status : PublicationStatus) (error : Option String) : Prog PublicationState String Unit :=
  modify (markJob buildId status error)

/-- `INSERT OR IGNORE`. -/
def queueJob (buildId : String) (s : PublicationState) : PublicationState :=
  if (s.job buildId).isSome then s
  else { s with jobs := s.jobs ++ [⟨buildId, .queued, 0, s.clock, none, s.clock, s.clock⟩] }

/-! ## The workflow service -/

def setInstance (buildId : String) (i : Instance) (s : PublicationState) : PublicationState :=
  { s with instances := Function.update s.instances buildId (some i) }

/-- How a call to the service ends. -/
inductive Answer where
  | answered
  | lost (message : String)
  | refused (message : String)

def call {α : Type} (act : PublicationState → Except String α × PublicationState) :
    Answer → Prog PublicationState String α
  | .answered => transact act
  | .lost message => transact fun s => (.error message, (act s).2)
  | .refused message => fail message

def createInstance (buildId : String) (s : PublicationState) : Except String Unit × PublicationState :=
  match s.instances buildId with
  | some _ => (.error "instance.already_exists", s)
  | none => (.ok (), setInstance buildId ⟨0, .queued⟩ s)

def getInstance (buildId : String) (s : PublicationState) : Except String Unit × PublicationState :=
  match s.instances buildId with
  | some _ => (.ok (), s)
  | none => (.error "instance.not_found", s)

def instanceStatus (buildId : String) (s : PublicationState) : Except String Stage × PublicationState :=
  match s.instances buildId with
  | some i => (.ok i.stage, s)
  | none => (.error "instance.not_found", s)

def restartInstance (buildId : String) (s : PublicationState) : Except String Unit × PublicationState :=
  match s.instances buildId with
  | some i => (.ok (), setInstance buildId ⟨i.generation + 1, .queued⟩ s)
  | none => (.error "instance.not_found", s)

/-! ## Dispatching -/

/-- How the calls of one dispatch end. -/
structure Calls where
  create : Answer
  get : Answer
  status : Answer
  restart : Answer

/-- How the workflow is reached: `PUBLICATION`, or `PIPELINE` with the status
it responds with. -/
inductive Binding where
  | publication (calls : Calls)
  | pipeline (response : Except String Nat)
  | unconfigured

/-- The instance is created or restarted; `false` when it turns out published. -/
def dispatchWorkflow (calls : Calls) (buildId : String) : Prog PublicationState String Bool := do
  match ← (call (createInstance buildId) calls.create).attempt with
  | .ok () => pure true
  | .error cause =>
    match ← (call (getInstance buildId) calls.get).attempt with
    | .error _ => fail cause
    | .ok () =>
      let stage ← call (instanceStatus buildId) calls.status
      if stage = .errored ∨ stage = .terminated then
        call (restartInstance buildId) calls.restart
        pure true
      else if stage = .complete then
        match ← read fun s => s.releases buildId with
        | some _ =>
          mark buildId .completed none
          pure false
        | none => fail cause
      else pure true

def dispatchBy (buildId : String) : Binding → Prog PublicationState String Bool
  | .publication calls => dispatchWorkflow calls buildId
  | .pipeline (.ok status) =>
    if 200 ≤ status ∧ status < 300 then pure true else fail s!"publication dispatch rejected ({status})"
  | .pipeline (.error message) => fail message
  | .unconfigured => fail "publication workflow is not configured"

/-- `/^[A-Za-z0-9_-]{1,128}$/`. -/
def isBuildId (s : String) : Bool :=
  0 < s.toList.length && s.toList.length ≤ 128 &&
    s.toList.all fun c => ('A' ≤ c && c ≤ 'Z') || ('a' ≤ c && c ≤ 'z') || ('0' ≤ c && c ≤ '9') || c = '_' || c = '-'

def enqueuePublication (binding : Binding) (buildId : String) : Prog PublicationState String (String × Bool) := do
  if isBuildId buildId = false then fail "buildId is required"
  else
    match ← read fun s => s.cohorts buildId with
    | some cohort => pure (s!"cohort-{cohort}", false)
    | none =>
      modify (queueJob buildId)
      let status ← read fun s => s.status buildId
      if status = some .dispatched ∨ status = some .completed then pure (s!"publish-{buildId}", false)
      else
        match ← (dispatchBy buildId binding).attempt with
        | .ok false => pure (s!"publish-{buildId}", false)
        | .ok true =>
          mark buildId .dispatched none
          pure (s!"publish-{buildId}", true)
        | .error cause =>
          mark buildId .failed (some cause)
          fail cause

/-- The rows that are due, the most overdue first. -/
def dueJobs (limit : Nat) (s : PublicationState) : List String :=
  let due := s.jobs.filter fun j =>
    (j.status = .queued || j.status = .failed) && j.nextAttemptAt ≤ s.clock && (s.cohorts j.buildId).isNone
  let ordered := due.insertionSort fun a b =>
    a.nextAttemptAt < b.nextAttemptAt ∨ (a.nextAttemptAt = b.nextAttemptAt ∧ a.buildId ≤ b.buildId)
  (ordered.take (min (max limit 1) 100)).map PublicationJob.buildId

/-- The builds one after the other, whatever comes of each. -/
def requeueAll (binding : Nat → Binding) : List String → Prog PublicationState String Nat
  | [] => pure 0
  | buildId :: rest => do
    match ← (enqueuePublication (binding rest.length) buildId).attempt with
    | .ok (_, true) => do
      let dispatched ← requeueAll binding rest
      pure (dispatched + 1)
    | _ => requeueAll binding rest

def requeuePublications (binding : Nat → Binding) (limit : Nat) : Prog PublicationState String Nat := do
  let builds ← read (dueJobs limit)
  requeueAll binding builds

/-- A request to the endpoint; `buildId` is what `parsePayload` reads of its body. -/
structure EndpointRequest where
  method : String
  authorization : Option String
  contentLength : Nat
  buildId : Except String String

/-- `publicationEndpoint`, as the status it answers with. -/
def publicationEndpoint (token : Option String) (calls : Option Calls) (request : EndpointRequest) :
    Prog PublicationState String Nat :=
  if request.method ≠ "POST" then pure 405
  else if token.any (fun t => request.authorization ≠ some s!"Bearer {t}") then pure 401
  else if request.contentLength > 8 * 1024 then pure 413
  else
    match request.buildId, calls with
    | .error _, _ => pure 400
    | .ok _, none => pure 503
    | .ok buildId, some calls => do
      match ← (enqueuePublication (.publication calls) buildId).attempt with
      | .ok _ => pure 202
      | .error _ => pure 503

/-! ## The workflow's run -/

/-- How one attempt of the step goes: after how many of its three steps it
stops (its build cannot be published, a later step throws, or the step times
out), and the release it publishes otherwise. -/
structure Attempt where
  stopsAfter : Nat
  message : String
  releaseId : String

/-- A step of a run, which a restart ends. -/
def underway {α : Type} (buildId : String) (i : Instance) (act : PublicationState → α × PublicationState) :
    Prog PublicationState String α :=
  transact fun s => if s.instances buildId = some i then (.ok (act s).1, (act s).2) else (.error "aborted", s)

/-- `publishBuild`, of a build that can be published. -/
def publishBuild (releaseId buildId : String) (s : PublicationState) : String × PublicationState :=
  match s.releases buildId with
  | some release => (release, s)
  | none => (releaseId, { s with releases := Function.update s.releases buildId (some releaseId) })

/-- `publish-build`: the blockers of other requests that the release resolves are not in this state. -/
def publishStep (buildId : String) (i : Instance) (a : Attempt) : Prog PublicationState String String := do
  if a.stopsAfter = 0 then fail a.message
  else
    let release ← underway buildId i (publishBuild a.releaseId buildId)
    if a.stopsAfter = 1 then fail a.message
    else
      underway buildId i fun s => ((), markJob buildId .completed none s)
      if a.stopsAfter = 2 then fail a.message else pure release

/-- `step.do` with so many retries. -/
def stepDo (buildId : String) (i : Instance) (attempts : Nat → Attempt) : Nat → Prog PublicationState String String
  | 0 => publishStep buildId i (attempts 0)
  | retries + 1 => do
    match ← (publishStep buildId i (attempts (retries + 1))).attempt with
    | .ok release => pure release
    | .error _ => stepDo buildId i attempts retries

/-- The service takes up a queued instance. -/
def takeUp (buildId : String) (s : PublicationState) : Except String Instance × PublicationState :=
  match s.instances buildId with
  | some ⟨generation, .queued⟩ => (.ok ⟨generation, .running⟩, setInstance buildId ⟨generation, .running⟩ s)
  | _ => (.error "instance.not_queued", s)

/-- `PublicationWorkflow.run`, and what the service makes of how it ends. -/
def publicationRun (attempts : Nat → Attempt) (buildId : String) : Prog PublicationState String Unit := do
  let i ← transact (takeUp buildId)
  match ← (stepDo buildId i attempts 3).attempt with
  | .ok _ => underway buildId i fun s => ((), setInstance buildId { i with stage := .complete } s)
  | .error cause =>
    underway buildId i fun s =>
      ((), setInstance buildId { i with stage := .failing } (markJob buildId .failed (some cause) s))
    underway buildId { i with stage := .failing } fun s => ((), setInstance buildId { i with stage := .errored } s)

end Omapkg.Server.Publication
