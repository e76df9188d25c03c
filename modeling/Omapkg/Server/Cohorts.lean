import Omapkg.Lib.Pool
import Omapkg.Lib.Sql
import Omapkg.Server.Decoded
import Omapkg.Server.Validate
/-!
# Build cohorts

What `src/src/lib/server/cohorts.ts` and the commands over it keep of one
cohort: its row, its revisions and its events, each of which is committed with
the row it was made from (`cohort-phases.ts`, `cohort-scope-uploads.ts`,
`cohort-changelogs.ts`). Who may do what, the gates and the members of a
manifest are asked of the outside.
-/

namespace Omapkg.Server.Cohort

open Utf Json Prog

/-! ## Events -/

inductive CohortPhase where
  | plan | review | build | verify | stage | approve | publish | observe
  deriving DecidableEq, Repr

def CohortPhase.text : CohortPhase → String
  | plan => "plan"
  | review => "review"
  | build => "build"
  | verify => "verify"
  | stage => "stage"
  | approve => "approve"
  | publish => "publish"
  | observe => "observe"

/-- `['publish', 'observe'].includes(phase)`. -/
def CohortPhase.isPublished (phase : CohortPhase) : Bool := phase = .publish || phase = .observe

inductive CohortCondition where
  | ready | blocked | held | recovering | complete
  deriving DecidableEq, Repr

def CohortCondition.text : CohortCondition → String
  | ready => "ready"
  | blocked => "blocked"
  | held => "held"
  | recovering => "recovering"
  | complete => "complete"

inductive EventKind where
  | scope | phase | condition | changelog | changelogReview | publication | recovery
  deriving DecidableEq, Repr

def EventKind.text : EventKind → String
  | scope => "scope"
  | phase => "phase"
  | condition => "condition"
  | changelog => "changelog"
  | changelogReview => "changelog-review"
  | publication => "publication"
  | recovery => "recovery"

/-- What a command gives as evidence. -/
inductive Evidence where
  | none
  | scope (scopeUploadSha256 : String)
  | gate (blockersSha256 matrixSha256 : String) (paged : Bool) (matrix blockers : JsString)
  | changelog (changelogSha256 factsSha256 : String)
  deriving DecidableEq

def Evidence.members : Evidence → List (String × Json JsString)
  | none => []
  | scope upload => [("scopeUploadSha256", jsText upload)]
  | gate blockersSha256 matrixSha256 paged matrix blockers => [
    ("blockersSha256", jsText blockersSha256), ("matrixSha256", jsText matrixSha256),
    (if paged then "pageSelection" else "matrix", .str matrix), ("blockers", .str blockers)]
  | changelog changelogSha256 factsSha256 => [
    ("changelogSha256", jsText changelogSha256), ("factsSha256", jsText factsSha256)]

structure CohortEvent where
  cohortId : String
  revision : Nat
  sequence : Nat
  kind : EventKind
  previousEventSha256 : Option String
  priorManifestSha256 : Option String
  manifestSha256 : String
  fromPhase : Option CohortPhase
  phase : CohortPhase
  condition : CohortCondition
  actor : String
  timestamp : Nat
  cause : JsString
  evidence : Evidence
  deriving DecidableEq

def CohortEvent.members (e : CohortEvent) : List (String × Json JsString) := [
  ("schemaVersion", jsNat 1), ("cohortId", jsText e.cohortId), ("revision", jsNat e.revision),
  ("sequence", jsNat e.sequence), ("kind", jsText e.kind.text),
  ("previousEventSha256", orNull jsText e.previousEventSha256),
  ("priorManifestSha256", orNull jsText e.priorManifestSha256), ("manifestSha256", jsText e.manifestSha256),
  ("from", orNull (fun phase : CohortPhase => jsText phase.text) e.fromPhase), ("phase", jsText e.phase.text),
  ("condition", jsText e.condition.text), ("actor", jsText e.actor), ("timestamp", jsNat e.timestamp),
  ("cause", .str e.cause), ("evidence", jsObject e.evidence.members)]

def CohortEvent.json (e : CohortEvent) : List Char := canonicalJson (jsObject e.members)

/-! ## Tables -/

/-- A row of `cohorts`. -/
structure CohortRecord where
  currentRevision : Nat
  eventSequence : Nat
  eventSha256 : Option String
  phase : CohortPhase
  condition : CohortCondition
  deriving DecidableEq

structure RevisionRow where
  revision : Nat
  manifestJson : List Char
  manifestSha256 : String
  deriving DecidableEq

structure EventRow where
  sequence : Nat
  revision : Nat
  commandSha256 : String
  eventJson : List Char
  eventSha256 : String
  deriving DecidableEq

structure ChangelogRow where
  revision : Nat
  digest : String
  factsSha256 : String
  documentJson : List Char
  narrative : JsString
  deriving DecidableEq

structure ReviewRow where
  revision : Nat
  changelogSha256 : String
  actor : String
  deriving DecidableEq

structure ScopeUpload where
  id : String
  expectedRevision : Option Nat
  baseSha256 : Option String
  expectedCount : Nat
  nextChunk : Nat
  memberCount : Nat
  sealedRevision : Option Nat
  createdBy : String
  deriving DecidableEq

/-- The rows of one cohort. `admits` says what the assertions over other tables answer. -/
structure CohortDb where
  cohort : Option CohortRecord
  revisions : List RevisionRow
  events : List EventRow
  changelogs : List ChangelogRow
  reviews : List ReviewRow
  uploads : List ScopeUpload
  admits : Bool

/-- A row of `cohorts` joined with its current revision. -/
structure CohortRow extends CohortRecord where
  manifestJson : List Char
  manifestSha256 : String

structure Phase where
  event : Json String
  eventSha256 : String

inductive FactsState where
  | planned | built | published
  deriving DecidableEq, Repr

/-- The facts of a changelog, but for what they say of the members. -/
structure CohortFacts where
  revision : Nat
  manifestSha256 : String
  /-- The revision and the manifest of the baseline. -/
  baseline : Option (Nat × String)
  state : FactsState
  phases : List Phase

/-- What does not change: the digest, the cohort's id and the document of generated facts,
which tells what the two manifests differ in. -/
structure CohortEnv where
  sha256 : Bytes → Hash.Digest
  cohortId : String
  describe : CohortFacts → List Char → Option (List Char) → List Char

/-- `sha256` of a text. -/
def CohortEnv.digest (env : CohortEnv) (text : List Char) : String := (env.sha256 (encode text)).hex

/-! ## Reading -/

def joined (s : CohortDb) : Option CohortRow :=
  s.cohort.bind fun c => (s.revisions.find? (·.revision = c.currentRevision)).map fun r =>
    ⟨c, r.manifestJson, r.manifestSha256⟩

def refuse {α : Type} (status : Nat) (message : String) : Prog CohortDb PolicyError α := fail ⟨status, message⟩

/-- `readCohortManifest` of a record. -/
def readCohortManifest (env : CohortEnv) (manifestJson : List Char) (manifestSha256 : String) :
    Prog CohortDb PolicyError Unit :=
  if env.digest manifestJson ≠ manifestSha256 then refuse 409 "Cohort manifest integrity check failed." else pure ()

def getCohort (env : CohortEnv) : Prog CohortDb PolicyError CohortRow := do
  match ← read joined with
  | none => refuse 404 "Build cohort not found."
  | some row =>
    readCohortManifest env row.manifestJson row.manifestSha256
    pure row

/-- The cohort, if it was proposed. -/
def findCohort (env : CohortEnv) : Prog CohortDb PolicyError (Option CohortRow) := do
  let present ← read (·.cohort)
  if present.isSome = true then
    let row ← getCohort env
    pure (some row)
  else pure none

def cohortEvents (after limit : Nat) (s : CohortDb) : List EventRow :=
  ((s.events.filter (after < ·.sequence)).insertionSort fun a b => a.sequence ≤ b.sequence).take (min 100 limit)

/-! ## Committing an event -/

/-- `reviewReason`. -/
def reviewReason (value : JsString) : Except PolicyError JsString :=
  if trim value = [] ∨ (trim value).length > 2000 ∨ (trim value).any isControl = true then
    reject "Provide a clear reason, up to 2,000 characters." 400
  else .ok (trim value)

structure CohortEventInput where
  kind : EventKind
  phase : CohortPhase
  condition : CohortCondition
  cause : JsString
  evidence : Evidence

/-- The event that follows the row as it was read; `next` is its new revision and manifest. -/
def cohortEvent (env : CohortEnv) (current : CohortRow) (actor : String) (timestamp : Nat) (input : CohortEventInput)
    (next : Option (Nat × String)) : Except PolicyError CohortEvent := do
  let cause ← reviewReason input.cause
  .ok {
    cohortId := env.cohortId
    revision := (next.map (·.1)).getD current.currentRevision
    sequence := current.eventSequence + 1
    kind := input.kind
    previousEventSha256 := current.eventSha256
    priorManifestSha256 := if current.eventSequence ≠ 0 then some current.manifestSha256 else none
    manifestSha256 := (next.map (·.2)).getD current.manifestSha256
    fromPhase := if current.eventSequence ≠ 0 then some current.phase else none
    phase := input.phase
    condition := input.condition
    actor
    timestamp
    cause
    evidence := input.evidence }

/-- The row after an event. -/
def CohortEvent.record (env : CohortEnv) (e : CohortEvent) : CohortRecord :=
  ⟨e.revision, e.sequence, some (env.digest e.json), e.phase, e.condition⟩

def CohortEvent.row (env : CohortEnv) (commandSha256 : String) (e : CohortEvent) : EventRow :=
  ⟨e.sequence, e.revision, commandSha256, e.json, env.digest e.json⟩

/-- `UPDATE cohorts …`, if the row is still as it was read. -/
def updateCohort (env : CohortEnv) (current : CohortRow) (e : CohortEvent) : Sql.Statement CohortDb := fun s _ =>
  match s.cohort with
  | some c =>
    if c.currentRevision = current.currentRevision ∧ c.eventSequence = current.eventSequence ∧
        c.eventSha256 = current.eventSha256 then
      .ok ({ s with cohort := some (e.record env) }, 1)
    else .ok (s, 0)
  | none => .ok (s, 0)

/-- `INSERT INTO distribution_assertions(expected,actual) VALUES(1,changes())`. -/
def assertChanged : Sql.Statement CohortDb := fun s changes =>
  if changes = 1 then .ok (s, 1) else .error ⟨"CHECK constraint failed: expected=actual"⟩

/-- The assertions over other tables. -/
def assertAdmitted : Sql.Statement CohortDb := fun s _ =>
  if s.admits = true then .ok (s, 1) else .error ⟨"CHECK constraint failed: expected=actual"⟩

def insertEvent (row : EventRow) : Sql.Statement CohortDb := fun s _ => do
  let (events, n) ← Sql.insert (fun r => r.sequence = row.sequence || r.commandSha256 = row.commandSha256)
    "UNIQUE constraint failed: cohort_events" row s.events
  .ok ({ s with events }, n)

def eventStatements (env : CohortEnv) (current : CohortRow) (commandSha256 : String) (e : CohortEvent) :
    List (Sql.Statement CohortDb) :=
  [updateCohort env current e, assertChanged, insertEvent (e.row env commandSha256)]

/-- `db.batch`, and `cohortConflict` for what a constraint raises. -/
def runBatch (statements : List (Sql.Statement CohortDb)) : Prog CohortDb PolicyError (List Nat) :=
  Sql.run statements fun _ =>
    ⟨409, "Cohort, review or publication state changed. Refresh before retrying; already published builds need new revisions."⟩

/-! ## Scope -/

def insertCohort : Sql.Statement CohortDb := fun s _ =>
  match s.cohort with
  | some _ => .error ⟨"UNIQUE constraint failed: cohorts.id"⟩
  | none => .ok ({ s with cohort := some ⟨1, 0, none, .plan, .ready⟩ }, 1)

def insertRevision (row : RevisionRow) : Sql.Statement CohortDb := fun s _ => do
  let (revisions, n) ← Sql.insert (fun r => r.revision = row.revision) "UNIQUE constraint failed: cohort_revisions" row
    s.revisions
  .ok ({ s with revisions }, n)

/-- The row of a cohort that is not there yet. -/
def newCohort (manifestJson : List Char) (manifestSha256 : String) : CohortRow :=
  ⟨⟨1, 0, none, .plan, .ready⟩, manifestJson, manifestSha256⟩

def scopeCommand (env : CohortEnv) (revision : Nat) (hash : String) : String :=
  env.digest (canonicalJson (jsObject [("kind", jsText "scope"), ("revision", jsNat revision), ("hash", jsText hash)]))

/-- `identifier`: `/^[A-Za-z0-9_-]{1,128}$/`. -/
def isIdentifier (id : String) : Bool :=
  1 ≤ id.toList.length && id.toList.length ≤ 128 && id.toList.all fun c => isAlnum c || c = '_' || c = '-'

/-- The statements of a new scope: the cohort's row if there is none, its revision, what
other tables must say, and the event. -/
def scopeStatements (env : CohortEnv) (current : Option CohortRow) (base : CohortRow) (revision : RevisionRow)
    (e : CohortEvent) : List (Sql.Statement CohortDb) :=
  (if current.isNone then [insertCohort] else []) ++
    [insertRevision revision, assertAdmitted] ++
    eventStatements env base (scopeCommand env revision.revision revision.manifestSha256) e

/-- A proposal: what `cohortManifest` and `scopeAuthority` answer, of the manifest and of the one
it replaces. -/
structure Proposal where
  manifest : Except PolicyError (Json JsString)
  reviewer : String
  prior : Except PolicyError Unit
  expectedRevision : Option Nat
  reason : JsString
  timestamp : Nat

/-- `scopeAuthority` of the manifest that is replaced. -/
def assertPrior (current : Option CohortRow) (prior : Except PolicyError Unit) : Prog CohortDb PolicyError Unit :=
  if current.isSome = true then ofExcept prior else pure ()

def proposeCohort (env : CohortEnv) (p : Proposal) : Prog CohortDb PolicyError CohortRow := do
  if isIdentifier env.cohortId = false then refuse 400 "Invalid cohort ID."
  else
    let manifest ← ofExcept p.manifest
    let current ← findCohort env
    assertPrior current p.prior
    if current.any (·.phase.isPublished) = true then
      refuse 409 "Published scope is immutable. Open a follow-up cohort."
    else
      let json := canonicalJson manifest
      let hash := env.digest json
      match current.filter fun c => c.manifestSha256 = hash &&
        (some c.currentRevision = p.expectedRevision || c.currentRevision = p.expectedRevision.getD 0 + 1) with
      | some row => pure row
      | none =>
        if current.map (·.currentRevision) ≠ p.expectedRevision then
          refuse 409 "Cohort changed. Review its current revision."
        else
          let revision := (current.map (·.currentRevision)).getD 0 + 1
          let base := current.getD (newCohort json hash)
          let e ← ofExcept (cohortEvent env base p.reviewer p.timestamp ⟨.scope, .plan, .ready, p.reason, .none⟩
            (some (revision, hash)))
          let _ ← runBatch (scopeStatements env current base ⟨revision, json, hash⟩ e)
          getCohort env

/-- What a sealed upload asks: who asks, what its chunks make up and whom they belong to. -/
structure Sealing where
  uploadId : String
  maintainer : Except PolicyError String
  chunks : Nat
  manifest : Except PolicyError (Json JsString)
  reviewer : String
  prior : Except PolicyError Unit
  reason : JsString
  timestamp : Nat

def sealUpload (uploadId : String) (chunks revision : Nat) : Sql.Statement CohortDb := fun s _ =>
  let (uploads, n) := Sql.update
    (fun u => u.id = uploadId && u.sealedRevision.isNone && u.memberCount = u.expectedCount && u.nextChunk = chunks)
    (fun u => { u with sealedRevision := some revision }) s.uploads
  .ok ({ s with uploads }, n)

/-- The cohort is as it was read. -/
def assertUnchanged (current : CohortRow) : Sql.Statement CohortDb := fun s _ =>
  if s.cohort.any (fun c => c.currentRevision = current.currentRevision && c.eventSequence = current.eventSequence) then
    .ok (s, 1)
  else .error ⟨"CHECK constraint failed: expected=actual"⟩

structure SealedScope where
  revision : Nat
  manifestSha256 : String
  unchanged : Bool

def scopeUpload (p : Sealing) : Prog CohortDb PolicyError ScopeUpload := do
  let reviewer ← ofExcept p.maintainer
  match ← read fun s => s.uploads.find? (·.id = p.uploadId) with
  | none => refuse 404 "Cohort scope upload not found."
  | some upload =>
    if upload.createdBy ≠ reviewer then refuse 403 "Resume a scope upload created by your own account."
    else pure upload

/-- What a sealed upload was sealed as. -/
def sealedScope (upload : ScopeUpload) (revision : Nat) (s : CohortDb) : Option SealedScope :=
  (s.revisions.find? (·.revision = revision)).map fun r =>
    ⟨r.revision, r.manifestSha256, some revision = upload.expectedRevision⟩

def sealCohortScope (env : CohortEnv) (p : Sealing) : Prog CohortDb PolicyError (Option SealedScope) := do
  let upload ← scopeUpload p
  let clean ← ofExcept (reviewReason p.reason)
  match upload.sealedRevision with
  | some revision => read (sealedScope upload revision)
  | none =>
    if upload.memberCount ≠ upload.expectedCount then
      refuse 409 "Upload every declared cohort member before sealing scope."
    else
      let current ← findCohort env
      if current.map (·.currentRevision) ≠ upload.expectedRevision ∨
          current.map (·.manifestSha256) ≠ upload.baseSha256 ∨ current.any (·.phase.isPublished) = true then
        refuse 409 "Cohort scope changed. Start from the current unpublished revision."
      else
        let manifest ← ofExcept p.manifest
        assertPrior current p.prior
        let json := canonicalJson manifest
        let hash := env.digest json
        let revision := upload.expectedRevision.getD 0 + 1
        if (encode json).length > 1024 * 1024 then refuse 413 "Scope index exceeds one MiB. Use larger member chunks."
        else
          match current.filter (·.manifestSha256 = hash) with
          | some row =>
            let _ ← runBatch [assertAdmitted, assertUnchanged row,
              sealUpload p.uploadId p.chunks row.currentRevision, assertChanged]
            pure (some ⟨row.currentRevision, hash, true⟩)
          | none =>
            let base := current.getD (newCohort json hash)
            let e ← ofExcept (cohortEvent env base p.reviewer p.timestamp ⟨.scope, .plan, .ready, clean, .scope p.uploadId⟩
              (some (revision, hash)))
            let _ ← runBatch ([assertAdmitted, sealUpload p.uploadId p.chunks revision, assertChanged] ++
              scopeStatements env current base ⟨revision, json, hash⟩ e)
            pure (some ⟨revision, hash, false⟩)

/-! ## The history -/

/-- How deep arrays and objects that `JSON.parse` reads may nest. -/
def jsonDepth : Nat := 10000

/-- `JSON.parse`, lone surrogates read as the replacement character. -/
def parseJson (text : List Char) : Except PolicyError (Json String) :=
  match Json.parse jsonDepth text with
  | some (v, []) => .ok v
  | _ => .error ⟨500, "SyntaxError"⟩

/-- Where the loop over the events is. -/
structure Walk where
  sequence : Nat
  previousEvent : Option String
  phases : List Phase

/-- The event is one of the current revision, and no changelog's. -/
def isPhase (current : CohortRow) (event : Json String) : Bool :=
  isNumber current.currentRevision (property "revision" event) &&
    !(isText "changelog" (property "kind" event) || isText "changelog-review" (property "kind" event))

def walkRow (env : CohortEnv) (current : CohortRow) (w : Walk) (row : EventRow) : Except PolicyError Walk := do
  let event ← parseJson row.eventJson
  if row.sequence ≠ w.sequence + 1 ∨ isNumber row.sequence (property "sequence" event) = false ∨
      isText env.cohortId (property "cohortId" event) = false ∨
      isTextOrNull w.previousEvent (property "previousEventSha256" event) = false ∨
      env.digest row.eventJson ≠ row.eventSha256 then
    reject "Cohort phase history integrity check failed." 409
  else
    .ok ⟨row.sequence, some row.eventSha256,
      if isPhase current event then w.phases ++ [⟨event, row.eventSha256⟩] else w.phases⟩

def walkRows (env : CohortEnv) (current : CohortRow) : Walk → List EventRow → Except PolicyError Walk
  | w, [] => .ok w
  | w, row :: rows =>
    if row.sequence > current.eventSequence then .ok w
    else do
      let w ← walkRow env current w row
      walkRows env current w rows

/-- `while (sequence < current.event_sequence)`, with as many rounds as fuel. -/
def walkHistory (env : CohortEnv) (current : CohortRow) : Nat → Walk → Prog CohortDb PolicyError Walk
  | 0, w => if w.sequence < current.eventSequence then refuse 500 "out of fuel" else pure w
  | fuel + 1, w =>
    if w.sequence < current.eventSequence then do
      let rows ← read (cohortEvents w.sequence 100)
      if rows = [] then refuse 409 "Cohort phase history is incomplete."
      else
        let w ← ofExcept (walkRows env current w rows)
        walkHistory env current fuel w
    else pure w

def previousCohortScope (env : CohortEnv) (current : CohortRow) : Prog CohortDb PolicyError (Option RevisionRow) := do
  if current.currentRevision = 1 then pure none
  else
    match ← read fun s => s.revisions.find? (·.revision = current.currentRevision - 1) with
    | none => refuse 409 "Previous cohort revision is missing."
    | some previous =>
      readCohortManifest env previous.manifestJson previous.manifestSha256
      pure (some previous)

def factsState (phases : List Phase) : FactsState :=
  if phases.any (fun p => isText "publication" (property "kind" p.event)) then .published
  else if phases.any (fun p => isText "phase" (property "kind" p.event) && isText "build" (property "from" p.event) &&
      isText "verify" (property "phase" p.event)) then .built
  else .planned

/-- The facts and the manifest that they are compared with. -/
def generateCohortFacts (env : CohortEnv) (current : CohortRow) :
    Prog CohortDb PolicyError (CohortFacts × Option (List Char)) := do
  readCohortManifest env current.manifestJson current.manifestSha256
  let previous ← previousCohortScope env current
  let w ← walkHistory env current current.eventSequence ⟨0, none, []⟩
  if w.previousEvent ≠ current.eventSha256 then refuse 409 "Cohort history changed while generating changes."
  else
    pure (⟨current.currentRevision, current.manifestSha256, previous.map fun r => (r.revision, r.manifestSha256),
      factsState w.phases, w.phases⟩, previous.map (·.manifestJson))

/-- `sha256(canonicalJson(facts))`. -/
def factsDigest (env : CohortEnv) (current : CohortRow) (facts : CohortFacts × Option (List Char)) : String :=
  env.digest (env.describe facts.1 current.manifestJson facts.2)

/-! ## Phases -/

inductive PhaseAction where
  | advance | recheck | hold | resume
  deriving DecidableEq, Repr

/-- What `evaluateCohortGate` or `aggregateCohortGate` answers. -/
structure Gate where
  next : Option CohortPhase
  /-- The codes and reasons of the blockers. -/
  blockers : List (String × String)
  blockersJson : List Char
  paged : Bool
  matrix : List Char

structure PhaseInput where
  revision : Nat
  sequence : Nat
  manifestSha256 : String
  action : PhaseAction
  reason : JsString
  /-- What `scopeAuthority` answers. -/
  reviewer : Except PolicyError String
  /-- The digest of the command. -/
  commandSha256 : String
  gate : Except PolicyError Gate
  timestamp : Nat

structure PhaseAnswer where
  eventJson : List Char
  duplicate : Bool

/-- The phase and the condition an action leads to. -/
def gateOutcome (current : CohortRow) (action : PhaseAction) (gate : Gate) :
    Except PolicyError (CohortPhase × CohortCondition) :=
  let blocked := gate.blockers.any (·.1 ≠ "held")
  let condition : CohortCondition := if blocked then .blocked else .ready
  match action with
  | .advance =>
    match gate.next, gate.blockers with
    | some next, [] => .ok (next, .ready)
    | _, blockers =>
      .error ⟨409, (blockers.head?.map (·.2)).getD "This phase needs the release candidate action."⟩
  | .hold => .ok (current.phase, .held)
  | .recheck => .ok (current.phase, if current.condition = .held then .held else condition)
  | .resume => .ok (current.phase, condition)

def gateEvidence (env : CohortEnv) (gate : Gate) : Evidence :=
  .gate (env.digest gate.blockersJson) (env.digest gate.matrix) gate.paged (units (String.ofList gate.matrix))
    (units (String.ofList gate.blockersJson))

/-- The last event says what a recheck found. -/
def isRechecked (env : CohortEnv) (condition : CohortCondition) (gate : Gate) (event : Json String) : Bool :=
  let evidence (name : String) := (property "evidence" event).bind (property name)
  isText condition.text (property "condition" event) &&
    isText (env.digest gate.blockersJson) (evidence "blockersSha256") &&
    isText (env.digest gate.matrix) (evidence "matrixSha256")

/-- The last event, if it says what a recheck found. -/
def findRechecked (env : CohortEnv) (input : PhaseInput) (condition : CohortCondition) (gate : Gate) :
    Prog CohortDb PolicyError (Option EventRow) := do
  if input.action = .recheck then
    match ← read fun s => (s.events.insertionSort fun a b => a.sequence ≥ b.sequence).head? with
    | none => pure none
    | some last =>
      let event ← ofExcept (parseJson last.eventJson)
      pure (if isRechecked env condition gate event then some last else none)
  else pure none

def changeCohortPhase (env : CohortEnv) (input : PhaseInput) : Prog CohortDb PolicyError PhaseAnswer := do
  let current ← getCohort env
  let reviewer ← ofExcept input.reviewer
  let reason ← ofExcept (reviewReason input.reason)
  match ← read fun s => s.events.find? (·.commandSha256 = input.commandSha256) with
  | some row => pure ⟨row.eventJson, true⟩
  | none =>
    if current.currentRevision ≠ input.revision ∨ current.eventSequence ≠ input.sequence ∨
        current.manifestSha256 ≠ input.manifestSha256 then
      refuse 409 "Cohort changed. Read the current phase and revision before acting."
    else if current.phase.isPublished = true then
      refuse 409 "Use the release rollout or recovery action for a published cohort."
    else
      let gate ← ofExcept input.gate
      let (phase, condition) ← ofExcept (gateOutcome current input.action gate)
      match ← findRechecked env input condition gate with
      | some row => pure ⟨row.eventJson, true⟩
      | none =>
        let e ← ofExcept (cohortEvent env current reviewer input.timestamp
          ⟨if phase = current.phase then .condition else .phase, phase, condition, reason, gateEvidence env gate⟩ none)
        let _ ← runBatch (assertAdmitted :: eventStatements env current input.commandSha256 e)
        pure ⟨e.json, false⟩

/-! ## Changelogs -/

def insertChangelog (row : ChangelogRow) : Sql.Statement CohortDb := fun s _ => do
  let (changelogs, n) ← Sql.insert (fun r => r.revision = row.revision && r.digest = row.digest)
    "UNIQUE constraint failed: cohort_changelogs" row s.changelogs
  .ok ({ s with changelogs }, n)

def insertReview (row : ReviewRow) : Sql.Statement CohortDb := fun s _ => do
  let (reviews, n) ← Sql.insert
    (fun r => r.revision = row.revision && r.changelogSha256 = row.changelogSha256 && r.actor = row.actor)
    "UNIQUE constraint failed: cohort_changelog_reviews" row s.reviews
  .ok ({ s with reviews }, n)

structure ChangelogInput where
  revision : Nat
  expectedFactsSha256 : String
  narrative : JsString
  reviewer : Except PolicyError String
  /-- `canonicalJson` of the document with the facts and the narrative. -/
  document : List Char → JsString → List Char
  timestamp : Nat

/-- The narrative is too long or has control characters but tabs, line feeds and returns. -/
def isBadNarrative (narrative : JsString) : Bool :=
  16000 < narrative.length ||
    narrative.any fun u => u ≤ 8 || u = 0xB || u = 0xC || (0xE ≤ u && u ≤ 0x1F) || u = 0x7F

def saveCohortChangelog (env : CohortEnv) (input : ChangelogInput) : Prog CohortDb PolicyError String := do
  let current ← getCohort env
  let reviewer ← ofExcept input.reviewer
  if current.currentRevision ≠ input.revision ∨ current.phase.isPublished = true then
    refuse 409 "Select the current unpublished cohort revision."
  else if isBadNarrative input.narrative = true then
    refuse 400 "Write a narrative up to 16,000 characters without control characters."
  else
    let facts ← generateCohortFacts env current
    let factsHash := factsDigest env current facts
    if factsHash ≠ input.expectedFactsSha256 then
      refuse 409 "Generated facts changed. Read the new diff before editing the narrative."
    else
      let json := input.document (env.describe facts.1 current.manifestJson facts.2) (trim input.narrative)
      let hash := env.digest json
      let saved ← read fun s => s.changelogs.any fun r => r.revision = input.revision && r.digest = hash
      if saved = true then pure hash
      else
        let command := env.digest (canonicalJson (jsObject [("kind", jsText "changelog"), ("revision", jsNat input.revision),
          ("hash", jsText hash)]))
        let e ← ofExcept (cohortEvent env current reviewer input.timestamp ⟨.changelog, current.phase, current.condition,
          units "Prepared a narrative for the generated cohort changes.", .changelog hash factsHash⟩ none)
        let _ ← runBatch (insertChangelog ⟨input.revision, hash, factsHash, json, trim input.narrative⟩ ::
          eventStatements env current command e)
        pure hash

structure ApprovalInput where
  revision : Nat
  digest : String
  reason : JsString
  reviewer : Except PolicyError String
  timestamp : Nat

def approveCohortChangelog (env : CohortEnv) (input : ApprovalInput) : Prog CohortDb PolicyError String := do
  let current ← getCohort env
  let reviewer ← ofExcept input.reviewer
  let clean ← ofExcept (reviewReason input.reason)
  if current.currentRevision ≠ input.revision ∨ current.phase.isPublished = true then
    refuse 409 "Select the current unpublished cohort revision."
  else
    match ← read fun s => s.changelogs.find? fun r => r.revision = input.revision && r.digest = input.digest with
    | none => refuse 409 "Select an intact generated changelog."
    | some row =>
      if env.digest row.documentJson ≠ input.digest then refuse 409 "Select an intact generated changelog."
      else
        let facts ← generateCohortFacts env current
        if row.factsSha256 ≠ factsDigest env current facts then
          refuse 409 "Changelog facts are stale. Generate and review the current changes."
        else if row.narrative = [] then refuse 409 "Review a user-facing narrative before approval."
        else
          let reviewed ← read fun s => s.reviews.any fun r => r.revision = input.revision &&
            r.changelogSha256 = input.digest && r.actor = reviewer
          if reviewed = true then pure input.digest
          else
            let command := env.digest (canonicalJson (jsObject [("kind", jsText "changelog-review"),
              ("revision", jsNat input.revision), ("digest", jsText input.digest), ("actor", jsText reviewer)]))
            let e ← ofExcept (cohortEvent env current reviewer input.timestamp ⟨.changelogReview, current.phase,
              current.condition, clean, .changelog input.digest row.factsSha256⟩ none)
            let _ ← runBatch (insertReview ⟨input.revision, input.digest, reviewer⟩ ::
              eventStatements env current command e)
            pure input.digest

end Omapkg.Server.Cohort
