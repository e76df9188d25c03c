import Omapkg.Lib.Pool
import Omapkg.Lib.Sql
/-!
# Automatic factory runs

`dispatchUpstreamFactory` of `src/services/pipeline/release.ts`, called any
number of times for one automatic request. The generations it was assigned are
counted in the audit log, in a step of its own before the assignment, and a
lost answer of the workflow service is repaired by asking for the workflow.
-/

namespace Omapkg.Server.Automatic

open Prog

def maxAutomaticGenerations : Nat := 3

def upstreamActor : String := "system:upstream-check"

/-! ## The request and its workflows -/

inductive RequestStatus where
  | pending | generating | review | queued | building | built | failed | rejected | blocked
  deriving DecidableEq, Repr

/-- A random id: who draws it, and how many were drawn before. No two draws are the same. -/
structure GenerationId where
  drawer : Nat
  draw : Nat
  deriving DecidableEq, Repr

inductive AuditAction where
  | autoQueued | autoRetry | autoRetryExhausted | autoDispatchFailed | autoDispatched | autoDispatchConfirmed
  deriving DecidableEq, Repr

/-- A row of `audit_events` about the request. -/
structure AuditEvent where
  action : AuditAction
  generationId : Option GenerationId
  deriving DecidableEq

/-- The events that `automaticGenerationAvailable` counts. -/
def AuditEvent.isGeneration (event : AuditEvent) : Bool :=
  event.action = .autoQueued || event.action = .autoRetry

inductive WorkflowStatus where
  | queued | running | paused | waiting | complete | unknown | errored | terminated
  deriving DecidableEq, Repr

/-- A workflow that exists and is not one of `['errored', 'terminated']`. -/
def lives : Option WorkflowStatus → Bool
  | none | some .errored | some .terminated => false
  | some _ => true

/-- The row of the request, the audit log, the workflow service, and what
happened: `draws` counts the ids that were drawn, `assigned` lists those that the
request was given, and `replaced` the workflows of those that were replaced.
`nameTaken` says that another request of its name is active. -/
structure DispatchState where
  requestedBy : String
  status : RequestStatus
  factoryRunId : Option GenerationId
  nameTaken : Bool
  events : List AuditEvent
  workflows : GenerationId → Option WorkflowStatus
  draws : Nat
  assigned : List GenerationId
  replaced : List (Option WorkflowStatus)

structure RequestRow where
  requestedBy : String
  status : RequestStatus
  factoryRunId : Option GenerationId

def DispatchState.row (s : DispatchState) : RequestRow := ⟨s.requestedBy, s.status, s.factoryRunId⟩

/-! ## Statements -/

/-- The two `UPDATE`s that assign a generation; a failed request is compared with
the generation it had. The name of an active request is unique. -/
def assignRun (row : RequestRow) (generationId : GenerationId) : Sql.Statement DispatchState := fun s _ =>
  if s.requestedBy = upstreamActor ∧ s.status = row.status ∧
      (row.status = .failed → s.factoryRunId = row.factoryRunId) then
    if row.status = .failed ∧ s.nameTaken = true then .error ⟨"UNIQUE constraint failed: requests.name"⟩
    else
      .ok ({ s with
        status := .generating
        factoryRunId := some generationId
        assigned := s.assigned ++ [generationId]
        replaced := s.replaced ++ (s.factoryRunId.map s.workflows).toList }, 1)
  else .ok (s, 0)

/-- `INSERT … SELECT … WHERE changes()=1`. -/
def recordAssigned (action : AuditAction) (generationId : GenerationId) : Sql.Statement DispatchState := fun s changes =>
  if changes = 1 then .ok ({ s with events := s.events ++ [⟨action, some generationId⟩] }, 1) else .ok (s, 0)

def insertEvent (action : AuditAction) (generationId : GenerationId) : Sql.Statement DispatchState := fun s _ =>
  .ok ({ s with events := s.events ++ [⟨action, some generationId⟩] }, 1)

/-- Once for the request. -/
def insertExhausted : Sql.Statement DispatchState := fun s _ =>
  if s.events.any (·.action = .autoRetryExhausted) then .ok (s, 0)
  else .ok ({ s with events := s.events ++ [⟨.autoRetryExhausted, none⟩] }, 1)

def failRun (generationId : GenerationId) : Sql.Statement DispatchState := fun s _ =>
  if s.requestedBy = upstreamActor ∧ s.status = .generating ∧ s.factoryRunId = some generationId then
    .ok ({ s with status := .failed }, 1)
  else .ok (s, 0)

def runBatch (statements : List (Sql.Statement DispatchState)) : Prog DispatchState String (List Nat) :=
  Sql.run statements (·.message)

/-! ## Preparing a run -/

/-- `id()`. -/
def newId (me : Nat) : Prog DispatchState String GenerationId :=
  transact fun s => (.ok ⟨me, s.draws⟩, { s with draws := s.draws + 1 })

def generationCount (s : DispatchState) : Nat := (s.events.filter (·.isGeneration)).length

def automaticGenerationAvailable : Prog DispatchState String Bool := do
  let count ← read generationCount
  if count < maxAutomaticGenerations then pure true
  else
    let _ ← runBatch [insertExhausted]
    pure false

inductive Assignment where
  | exhausted
  | assigned (generationId : GenerationId)
  | changed

/-- The event of an assignment. -/
def assignedAction (row : RequestRow) : AuditAction := if row.status = .pending then .autoQueued else .autoRetry

/-- What a pending and a failed request have in common. -/
def assignGeneration (me : Nat) (row : RequestRow) : Prog DispatchState String Assignment := do
  let available ← automaticGenerationAvailable
  if available then
    let generationId ← newId me
    let changes ← runBatch [assignRun row generationId, recordAssigned (assignedAction row) generationId]
    pure (if changes.head? = some 1 then .assigned generationId else .changed)
  else pure .exhausted

def currentRun (row : RequestRow) : Option GenerationId :=
  if row.requestedBy = upstreamActor ∧ row.status = .generating then row.factoryRunId else none

/-- The second half of `prepareAutomaticFactoryRun`. -/
def prepareRetry (me : Nat) (row : RequestRow) : Prog DispatchState String (Option GenerationId) :=
  if row.requestedBy ≠ upstreamActor then pure none
  else if row.status = .failed then do
    let assignment ← assignGeneration me row
    match assignment with
    | .exhausted => pure none
    | .assigned generationId => pure (some generationId)
    | .changed =>
      let row ← read (·.row)
      pure (currentRun row)
  else pure (currentRun row)

def prepareAutomaticFactoryRun (me : Nat) : Prog DispatchState String (Option GenerationId) := do
  let row ← read (·.row)
  if row.requestedBy = upstreamActor ∧ row.status = .pending then do
    let assignment ← assignGeneration me row
    match assignment with
    | .exhausted => pure none
    | .assigned generationId => pure (some generationId)
    | .changed =>
      let row ← read (·.row)
      prepareRetry me row
  else prepareRetry me row

/-! ## Dispatching -/

/-- What the workflow service does with a new id. -/
inductive Creation where
  | answered | lost | refused
  deriving DecidableEq, Repr

/-- What a call is given: whether the service is configured, what it does with a
new workflow, and whether a workflow's status can be read. -/
structure Answers where
  configured : Bool
  creation : Creation
  readable : Bool

/-- Creating a workflow with an existing id throws. -/
def createWorkflow (creation : Creation) (generationId : GenerationId) : Prog DispatchState String Unit :=
  transact fun s =>
    match s.workflows generationId, creation with
    | some _, _ => (.error "workflow exists", s)
    | none, .refused => (.error "workflow was not created", s)
    | none, .lost => (.error "no answer",
        { s with workflows := Function.update s.workflows generationId (some .queued) })
    | none, .answered => (.ok (), { s with workflows := Function.update s.workflows generationId (some .queued) })

/-- `(await env.FACTORY.get(id)).status()`. -/
def workflowStatus (readable : Bool) (generationId : GenerationId) : Prog DispatchState String WorkflowStatus := do
  let status ← read (·.workflows generationId)
  match if readable then status else none with
  | some status => pure status
  | none => fail "workflow status is unavailable"

def recordAutomaticDispatchFailure (generationId : GenerationId) : Prog DispatchState String Unit := do
  let _ ← runBatch [failRun generationId, insertEvent .autoDispatchFailed generationId]
  pure ()

/-- A create that answered, and the event of it. -/
def createAndRecord (answers : Answers) (generationId : GenerationId) : Prog DispatchState String Unit := do
  createWorkflow answers.creation generationId
  let _ ← runBatch [insertEvent .autoDispatched generationId]
  pure ()

/-- What is done when the create threw: a workflow that lives is confirmed. -/
def confirmWorkflow (answers : Answers) (generationId : GenerationId) : Prog DispatchState String Bool := do
  let status ← workflowStatus answers.readable generationId
  if lives (some status) then
    let _ ← runBatch [insertEvent .autoDispatchConfirmed generationId]
    pure true
  else pure false

def dispatchRun (answers : Answers) (generationId : GenerationId) : Prog DispatchState String (Option GenerationId) :=
  if answers.configured = false then do
    recordAutomaticDispatchFailure generationId
    fail "factory workflow is not configured"
  else do
    let created ← (createAndRecord answers generationId).attempt
    match created with
    | .ok () => pure (some generationId)
    | .error _ =>
      let confirmed ← (confirmWorkflow answers generationId).attempt
      match confirmed with
      | .ok true => pure (some generationId)
      | _ =>
        recordAutomaticDispatchFailure generationId
        fail "factory workflow could not be queued"

def dispatchUpstreamFactory (answers : Answers) (me : Nat) : Prog DispatchState String (Option GenerationId) := do
  let run ← prepareAutomaticFactoryRun me
  match run with
  | none => pure none
  | some generationId => dispatchRun answers generationId

end Omapkg.Server.Automatic
