import Omapkg.Server.Manifest
import Omapkg.Server.ReproducedOutputs
/-!
# Evidence of native qualifications

`recordNativeQualification` of `src/src/lib/server/native-qualification.ts`, and the table
`native_qualification_evidence` of `src/migrations/0048_native_qualification.sql` that its
rows are for.
-/

namespace Omapkg.Server.NativeEvidence

open Utf Json

inductive Operation where
  | install | upgrade | recovery | boot | reproducibility
  deriving DecidableEq

def Operation.text : Operation → String
  | .install => "install"
  | .upgrade => "upgrade"
  | .recovery => "recovery"
  | .boot => "boot"
  | .reproducibility => "reproducibility"

inductive ReproducibilityStatus where
  | independentlyReproduced | verifiedReproducible | mismatch | notChecked
  deriving DecidableEq

def ReproducibilityStatus.text : ReproducibilityStatus → String
  | .independentlyReproduced => "independently-reproduced"
  | .verifiedReproducible => "verified-reproducible"
  | .mismatch => "mismatch"
  | .notChecked => "not-checked"

inductive QualificationStatus where
  | passed | failed | notChecked
  deriving DecidableEq

inductive CoverageKind where
  | member | system
  deriving DecidableEq

def CoverageKind.text : CoverageKind → String
  | .member => "member"
  | .system => "system"

structure Coverage where
  kind : CoverageKind
  pkgbase : Option String
  rootSha256 : Option String
  releaseId : Option String
  members : List String
  sha256 : String
  deriving DecidableEq

structure CommandResult where
  name : String
  exitCode : Int
  passed : Bool
  stdoutSha256 : String
  stderrSha256 : String

structure ReproducibilityAttempt where
  buildId : String
  attempt : Nat
  workerId : String
  artifactSha256 : String
  outputs : List ReproducibilityOutput

structure ReproducibilityReport where
  status : ReproducibilityStatus
  primary : ReproducibilityAttempt
  secondary : ReproducibilityAttempt

structure Evidence where
  planId : String
  testPlanSha256 : String
  cohortId : String
  revision : Nat
  operation : Operation
  architecture : Architecture
  candidateSha256 : String
  inputSha256 : String
  artifactSha256 : String
  environmentSha256 : String
  machineArchitecture : String
  goarch : String
  goos : String
  runtime : String
  details : List (JsString × Json JsString)
  profileId : String
  profileSha256 : String
  coverage : Coverage
  commandSha256 : String
  startedAt : String
  finishedAt : String
  exitCode : Int
  commands : List CommandResult
  observed : List (JsString × Json JsString)
  observedSha256 : String
  reproducibility : Option ReproducibilityReport
  workerId : String
  workerPublicKey : String
  signature : String

/-! ## As JSON -/

def jsTextOrNull : Option String → Json JsString
  | some s => jsText s
  | none => .null

def Coverage.json (c : Coverage) : Json JsString :=
  jsObject [("kind", jsText c.kind.text), ("pkgbase", jsTextOrNull c.pkgbase), ("rootSha256", jsTextOrNull c.rootSha256),
    ("releaseId", jsTextOrNull c.releaseId), ("members", .arr (c.members.map jsText)), ("sha256", jsText c.sha256)]

def CommandResult.json (result : CommandResult) : Json JsString :=
  jsObject [("name", jsText result.name), ("exitCode", .num (.ofInt result.exitCode)), ("passed", .bool result.passed),
    ("stdoutSha256", jsText result.stdoutSha256), ("stderrSha256", jsText result.stderrSha256)]

def ReproducibilityAttempt.json (a : ReproducibilityAttempt) : Json JsString :=
  jsObject [("buildId", jsText a.buildId), ("attempt", jsNat a.attempt), ("workerId", jsText a.workerId),
    ("artifactSha256", jsText a.artifactSha256), ("outputs", .arr (a.outputs.map (·.json)))]

def ReproducibilityReport.json (r : ReproducibilityReport) : Json JsString :=
  jsObject [("status", jsText r.status.text), ("primary", r.primary.json), ("secondary", r.secondary.json)]

def digestJson (sha256 : String) : Json JsString := jsObject [("sha256", jsText sha256)]

def machineJson (e : Evidence) : Json JsString :=
  jsObject [("architecture", jsText e.architecture.text), ("goarch", jsText e.goarch), ("goos", jsText e.goos),
    ("runtime", jsText e.runtime)]

/-- The members of a report, its signature aside. -/
def payloadMembers (e : Evidence) : List (String × Json JsString) :=
  [("schemaVersion", jsNat 1), ("planId", jsText e.planId), ("testPlanSha256", jsText e.testPlanSha256),
    ("cohortId", jsText e.cohortId), ("revision", jsNat e.revision), ("operation", jsText e.operation.text),
    ("architecture", jsText e.architecture.text), ("candidate", digestJson e.candidateSha256),
    ("input", digestJson e.inputSha256), ("artifact", digestJson e.artifactSha256),
    ("environment", jsObject [("sha256", jsText e.environmentSha256), ("machine", machineJson e), ("details", .obj e.details)]),
    ("profile", jsObject [("id", jsText e.profileId), ("sha256", jsText e.profileSha256)]), ("coverage", e.coverage.json),
    ("command", digestJson e.commandSha256),
    ("result", jsObject [("startedAt", jsText e.startedAt), ("finishedAt", jsText e.finishedAt),
      ("exitCode", .num (.ofInt e.exitCode)), ("commands", .arr (e.commands.map (·.json)))]),
    ("observed", .obj e.observed), ("observedSha256", jsText e.observedSha256), ("workerId", jsText e.workerId),
    ("workerPublicKey", jsText e.workerPublicKey)] ++
    e.reproducibility.toList.map fun r => ("reproducibility", r.json)

def signedPayload (e : Evidence) : Json JsString := jsObject (payloadMembers e)

def Evidence.json (e : Evidence) : Json JsString := jsObject (("signature", jsText e.signature) :: payloadMembers e)

/-! ## Tables -/

/-- What the expectations of a plan say of attempts. -/
structure Expected where
  primaryBuildId : Option String
  secondaryBuildId : Option String
  primaryAttempt : Option Nat
  secondaryAttempt : Option Nat

structure Plan where
  id : String
  planSha256 : String
  cohortId : String
  revision : Nat
  operation : Operation
  architecture : Architecture
  candidateSha256 : String
  inputSha256 : String
  artifactSha256 : String
  environmentSha256 : String
  profileId : String
  profileSha256 : String
  coverage : Coverage
  commands : List String
  commandsText : List Char
  expectedObservationSha256 : String
  expected : Expected

structure WorkerRow where
  id : String
  publicKey : String
  architecture : Architecture
  active : Bool

structure CohortRevisionRow where
  cohortId : String
  revision : Nat
  manifestSha256 : String

structure EvidenceRow where
  planId : String
  cohortId : String
  revision : Nat
  operation : Operation
  architecture : Architecture
  candidateSha256 : String
  inputSha256 : String
  artifactSha256 : String
  environmentSha256 : String
  profileId : String
  profileSha256 : String
  coverageKind : CoverageKind
  coveragePkgbase : Option String
  coverageRootSha256 : Option String
  coverageReleaseId : Option String
  coverageSha256 : String
  coverageJson : List Char
  observedSha256 : String
  status : QualificationStatus
  reproducibilityStatus : Option ReproducibilityStatus
  workerId : String
  workerPublicKey : String
  reportJson : List Char
  reportSha256 : String
  signature : String

structure EvidenceDb where
  plans : List Plan
  workers : List WorkerRow
  cohortRevisions : List CohortRevisionRow
  /-- `cohorts.current_revision`. -/
  currentRevision : String → Option Nat
  /-- The rows of `build_artifacts` of an attempt. -/
  outputs : String → Nat → List ReproducibilityOutput
  /-- `PRIMARY KEY(build_id,attempt,filename)`. -/
  distinct : ∀ buildId attempt, ((outputs buildId attempt).map (·.filename)).Nodup
  evidence : List EvidenceRow

/-- A worker that was authenticated is one of the table. -/
structure AuthenticatedWorker (db : EvidenceDb) where
  worker : WorkerRow
  registered : worker ∈ db.workers

/-- The constraints of `native_qualification_evidence`; a column of fixed values holds what its type has.
`jsonValid` is SQLite's `json_valid`. -/
structure EvidenceRow.Satisfies (row : EvidenceRow) (jsonValid : List Char → Bool) (db : EvidenceDb) : Prop where
  plan : ∃ plan ∈ db.plans, plan.id = row.planId
  worker : ∃ worker ∈ db.workers, worker.id = row.workerId
  cohortRevision : ∃ r ∈ db.cohortRevisions, r.cohortId = row.cohortId ∧ r.revision = row.revision
  digests : ∀ d ∈ [row.candidateSha256, row.inputSha256, row.artifactSha256, row.environmentSha256, row.profileSha256,
    row.coverageSha256, row.observedSha256, row.reportSha256], d.length = 64
  coverageJson : jsonValid row.coverageJson = true
  reportJson : jsonValid row.reportJson = true
  reproducibilityStatus : ∀ status, row.reproducibilityStatus = some status →
    status ∈ [ReproducibilityStatus.verifiedReproducible, .mismatch, .notChecked]
  reproducibility : row.operation = .reproducibility ↔ row.reproducibilityStatus ≠ none
  member : row.coverageKind = .member ↔ row.coveragePkgbase ≠ none
  system : row.coverageKind = .system ↔ row.coverageRootSha256 ≠ none
  release : row.coverageReleaseId ≠ none
  root : ∀ d, row.coverageRootSha256 = some d → d.length = 64
  unique : ∀ other ∈ db.evidence,
    ¬(other.planId = row.planId ∧ other.workerId = row.workerId ∧ other.reportSha256 = row.reportSha256)

/-! ## Parsing -/

/-- What a report is checked against besides the tables. -/
structure EvidenceEnv where
  sha256 : List Char → String
  collate : String → String → Bool
  /-- `timestamp` and `Date.parse`. -/
  instant : String → Option Int
  /-- Ed25519 of a public key, a message and a signature. -/
  verify : String → List Char → String → Bool
  /-- `qualificationPlanDigest` is the row's. -/
  planIntact : Plan → Bool
  assertPlanReview : String → Except String Unit
  /-- What `assertCandidate` checks after the cohort's revision. -/
  assertScope : Plan → Except String Unit
  assertSelectedInput : Plan → Except String Unit
  assertOperationObservation : Evidence → Except String Unit
  /-- The attempts' rows, workers, inputs, contracts and provenance. -/
  assertAttempts : Plan → ReproducibilityReport → Except String Unit
  /-- The retained objects of an attempt's outputs. -/
  assertObjects : ReproducibilityAttempt → Except String Unit
  /-- The signatures of an attempt's outputs and of its statement. -/
  assertSigned : ReproducibilityAttempt → Except String Unit
  artifactRegistered : Evidence → Bool

def reject (p : Prop) [Decidable p] (message : String) : Except String Unit := if p then .error message else .ok ()

theorem reject_ok {p : Prop} [Decidable p] {message : String} : reject p message = .ok () ↔ ¬p := by
  unfold reject
  rw [Fallible.guard_ok]
  simp

/-- `identifier`. -/
def isIdentifier (value : String) : Bool :=
  match value.toList with
  | [] => false
  | c :: rest => c.isAlphanum && rest.length ≤ 127 && rest.all fun c => c.isAlphanum || c ∈ ['.', '_', ':', '-']

/-- `/^[a-z0-9][a-z0-9@._+-]{0,63}$/`. -/
def isMember (value : String) : Bool :=
  let plain (c : Char) : Bool := c.isLower || c.isDigit
  match value.toList with
  | [] => false
  | c :: rest => plain c && rest.length ≤ 63 && rest.all fun c => plain c || c ∈ ['@', '.', '_', '+', '-']

def requireAll (checks : List (Bool × String)) : Except String Unit := checks.forM fun check => require check.1 check.2

theorem requireAll_ok {checks : List (Bool × String)} : requireAll checks = .ok () ↔ ∀ check ∈ checks, check.1 = true := by
  unfold requireAll
  rw [Fallible.forM_ok]
  simp only [require_ok]

def isScope (c : Coverage) : Bool :=
  c.releaseId.isSome &&
    match c.kind with
    | .member => c.pkgbase.isSome && c.rootSha256.isNone
    | .system => c.pkgbase.isNone && c.rootSha256.isSome

def parseCoverage (c : Coverage) : Except String Coverage := do
  requireAll [(c.pkgbase.all (isText 64), "coverage package"), (c.rootSha256.all isDigest, "coverage universe root"),
    (c.releaseId.all (isText 128), "coverage release")]
  reject (isScope c = false) "Qualification coverage scope is invalid."
  reject (c.members = [] ∨ 100000 < c.members.length ∨ c.members.all isMember = false)
    "Qualification coverage members are invalid."
  reject (¬c.members.Nodup) "Qualification coverage members must be unique."
  require (isDigest c.sha256) "coverage digest"
  return { c with members := c.members.insertionSort fun a b => KeyLE (units a) (units b) }

def parseResult (env : EvidenceEnv) (e : Evidence) : Except String Unit := do
  requireAll [((env.instant e.startedAt).isSome, "result start"), ((env.instant e.finishedAt).isSome, "result finish")]
  reject ((env.instant e.finishedAt).getD 0 < (env.instant e.startedAt).getD 0)
    "Qualification result timestamps are reversed."
  reject (32 < e.commands.length) "Invalid qualification command results."
  e.commands.forM fun result => requireAll [(isText 128 result.name && isIdentifier result.name, "result command name"),
    (-1 ≤ result.exitCode && result.exitCode ≤ 255, "command exit code"), (isDigest result.stdoutSha256, "stdout digest"),
    (isDigest result.stderrSha256, "stderr digest")]
  require (-1 ≤ e.exitCode && e.exitCode ≤ 255) "qualification exit code"

def parseAttempt (env : EvidenceEnv) (a : ReproducibilityAttempt) : Except String ReproducibilityAttempt := do
  reject (isIdentifier a.buildId = false ∨ isIdentifier a.workerId = false) "Invalid reproducibility attempt identity."
  let outputs ← parseOutputs env.collate a.outputs
  requireAll [(1 ≤ a.attempt && a.attempt ≤ 1000000, "build attempt"), (isDigest a.artifactSha256, "attempt artifact digest")]
  return { a with outputs }

def parseReproducibility (env : EvidenceEnv) (r : ReproducibilityReport) : Except String ReproducibilityReport := do
  let primary ← parseAttempt env r.primary
  let secondary ← parseAttempt env r.secondary
  return { r with primary, secondary }

def parseReport (env : EvidenceEnv) : Option ReproducibilityReport → Except String (Option ReproducibilityReport)
  | none => .ok none
  | some r => do return some (← parseReproducibility env r)

def parseEvidence (env : EvidenceEnv) (e : Evidence) : Except String Evidence := do
  reject (128 < e.details.length) "Environment details are too large."
  requireAll [(isText 128 e.profileId && isIdentifier e.profileId, "profile id"), (isDigest e.profileSha256, "profile digest")]
  let coverage ← parseCoverage e.coverage
  require (isDigest e.commandSha256) "command digest"
  parseResult env e
  requireAll [(isText 128 e.workerId && isIdentifier e.workerId, "worker id"),
    (isText 128 e.workerPublicKey, "worker public key"), (isText 256 e.signature, "qualification signature"),
    (isText 32 e.machineArchitecture, "machine architecture"), (isText 32 e.goarch, "machine goarch"),
    (isText 32 e.goos, "machine goos"), (isText 128 e.runtime, "machine runtime")]
  reject (e.machineArchitecture ≠ e.architecture.text ∨ e.goos ≠ "linux" ∨ e.goarch ∉ ["amd64", "arm64"])
    "Native machine does not identify a supported Linux target."
  requireAll [(isText 128 e.planId, "plan id"), (isDigest e.testPlanSha256, "test plan digest"),
    (isText 128 e.cohortId, "cohort id"), (1 ≤ e.revision && e.revision ≤ 1000000, "cohort revision"),
    (isDigest e.candidateSha256, "candidate digest"), (isDigest e.inputSha256, "input digest"),
    (isDigest e.artifactSha256, "artifact digest"), (isDigest e.environmentSha256, "environment digest"),
    (isDigest e.observedSha256, "observed digest")]
  let reproducibility ← parseReport env e.reproducibility
  reject (decide (e.operation = .reproducibility) ≠ reproducibility.isSome)
    "Reproducibility evidence is required only for the reproducibility operation."
  return { e with coverage, reproducibility }

/-! ## Recording -/

section
variable (env : EvidenceEnv) (db : EvidenceDb)

def currentPlan (planId : String) : Except String Plan :=
  match db.plans.find? fun plan => plan.id = planId with
  | none => .error "Qualification plan not found."
  | some plan => if env.planIntact plan = false then .error "Qualification plan digest changed." else .ok plan

def matchesPlan (e : Evidence) (plan : Plan) : Bool :=
  e.testPlanSha256 = plan.planSha256 && e.cohortId = plan.cohortId && e.revision = plan.revision &&
    e.operation = plan.operation && e.architecture = plan.architecture && e.candidateSha256 = plan.candidateSha256 &&
    e.inputSha256 = plan.inputSha256 && e.artifactSha256 = plan.artifactSha256 &&
    e.environmentSha256 = plan.environmentSha256 && e.profileId = plan.profileId && e.profileSha256 = plan.profileSha256 &&
    canonicalJson e.coverage.json = canonicalJson plan.coverage.json

def assertCandidate (plan : Plan) : Except String Unit := do
  reject (¬(∃ r ∈ db.cohortRevisions, r.cohortId = plan.cohortId ∧ r.revision = plan.revision ∧
      r.manifestSha256 = plan.candidateSha256) ∨ db.currentRevision plan.cohortId ≠ some plan.revision)
    "Qualification plan does not target the current cohort candidate."
  env.assertScope plan

/-- One attempt of a report against its registered outputs, the first one against the plan's too. -/
def checkAttempt (reviewed : Option String) (a : ReproducibilityAttempt) : Except String Unit := do
  compareOutputs (actualOutputs (db.outputs a.buildId a.attempt)) a.outputs
  env.assertObjects a
  reject (env.sha256 (outputsText (sortOutputs env.collate a.outputs)) ≠ a.artifactSha256)
    "Reproducibility artifact set digest is invalid."
  reject (reviewed.any (· ≠ a.artifactSha256) = true)
    "Reviewed reproducibility artifact set differs from the primary attempt."
  env.assertSigned a

def equalOutputs (report : ReproducibilityReport) : Bool :=
  outputsText (actualOutputs (db.outputs report.primary.buildId report.primary.attempt)) =
    outputsText (actualOutputs (db.outputs report.secondary.buildId report.secondary.attempt))

def ReproducibilityStatus.reproduced : ReproducibilityStatus → Bool
  | .independentlyReproduced | .verifiedReproducible => true
  | .mismatch | .notChecked => false

def actualReproducibility (plan : Plan) (report : ReproducibilityReport) : Except String ReproducibilityStatus := do
  reject (report.primary.workerId = report.secondary.workerId ∨
      report.primary.buildId = report.secondary.buildId ∧ report.primary.attempt = report.secondary.attempt)
    "Reproducibility must compare two attempts from distinct native workers."
  reject (plan.expected.primaryBuildId ≠ some report.primary.buildId ∨
      plan.expected.secondaryBuildId ≠ some report.secondary.buildId ∨
      plan.expected.primaryAttempt ≠ some report.primary.attempt ∨
      plan.expected.secondaryAttempt ≠ some report.secondary.attempt)
    "Reproducibility attempts differ from the reviewed test plan."
  if report.status = .notChecked then return .notChecked
  else
    env.assertAttempts plan report
    checkAttempt env db (some plan.artifactSha256) report.primary
    checkAttempt env db none report.secondary
    reject (report.status.reproduced = true ∧ equalOutputs db report = false)
      "Reproducibility report claims equal bytes for mismatched artifacts."
    reject (report.status = .mismatch ∧ equalOutputs db report = true)
      "Reproducibility report claims mismatch for equal artifacts."
    return report.status

/-- The status of a reproducibility report, and none for other operations. -/
def reproducibilityOf (worker : WorkerRow) (plan : Plan) (e : Evidence) : Except String (Option ReproducibilityStatus) :=
  if e.operation = .reproducibility then
    match e.reproducibility with
    | none => .error "Reproducibility comparison is required."
    | some report => do
      reject (report.secondary.workerId ≠ worker.id)
        "The second native worker must submit the reproducibility comparison."
      return some (← actualReproducibility env db plan report)
  else .ok none

def commandPassed (result : CommandResult) : Bool := result.exitCode = 0 && result.passed

def statusOf (plan : Plan) (e : Evidence) : Option ReproducibilityStatus → QualificationStatus
  | some .independentlyReproduced | some .verifiedReproducible => .passed
  | some .mismatch => .failed
  | some .notChecked => .notChecked
  | none =>
    if e.exitCode = 0 ∧ e.commands.length = plan.commands.length ∧ e.commands.all commandPassed = true ∧
        e.observedSha256 = plan.expectedObservationSha256 then .passed
    else if e.exitCode ≠ 0 ∨ e.commands.all commandPassed = false then .failed
    else .notChecked

def evidenceRow (plan : Plan) (e : Evidence) (reproducibilityStatus : Option ReproducibilityStatus) : EvidenceRow where
  planId := e.planId
  cohortId := e.cohortId
  revision := e.revision
  operation := e.operation
  architecture := e.architecture
  candidateSha256 := e.candidateSha256
  inputSha256 := e.inputSha256
  artifactSha256 := e.artifactSha256
  environmentSha256 := e.environmentSha256
  profileId := e.profileId
  profileSha256 := e.profileSha256
  coverageKind := e.coverage.kind
  coveragePkgbase := e.coverage.pkgbase
  coverageRootSha256 := e.coverage.rootSha256
  coverageReleaseId := e.coverage.releaseId
  coverageSha256 := e.coverage.sha256
  coverageJson := canonicalJson e.coverage.json
  observedSha256 := e.observedSha256
  status := statusOf plan e reproducibilityStatus
  reproducibilityStatus := reproducibilityStatus
  workerId := e.workerId
  workerPublicKey := e.workerPublicKey
  reportJson := canonicalJson e.json
  reportSha256 := env.sha256 (canonicalJson (signedPayload e))
  signature := e.signature

inductive Recording where
  | duplicate (row : EvidenceRow)
  | insert (row : EvidenceRow)

/-- What exits with success is to have observed what its operation leaves. -/
def checkObservation (e : Evidence) : Except String Unit :=
  if e.operation ≠ .reproducibility ∧ e.exitCode = 0 then env.assertOperationObservation e else .ok ()

/-- The checks of a parsed report, up to its status. -/
def checkEvidence (worker : WorkerRow) (e : Evidence) : Except String (Plan × Option ReproducibilityStatus) := do
  let plan ← currentPlan env db e.planId
  env.assertPlanReview e.planId
  reject (matchesPlan e plan = false) "Qualification evidence does not match its reviewed test plan."
  reject (e.workerId ≠ worker.id ∨ worker.active = false ∨ e.workerPublicKey ≠ worker.publicKey ∨
    worker.architecture ≠ e.architecture) "Qualification evidence worker identity is not current."
  assertCandidate env db plan
  env.assertSelectedInput plan
  reject (env.verify worker.publicKey (canonicalJson (signedPayload e)) e.signature = false)
    "Invalid qualification evidence signature."
  reject (env.sha256 plan.commandsText ≠ e.commandSha256) "Qualification command digest is invalid."
  reject (env.sha256 (canonicalJson (jsObject [("machine", machineJson e), ("details", .obj e.details)])) ≠ e.environmentSha256)
    "Environment evidence digest is invalid."
  reject (env.sha256 (canonicalJson (.obj e.observed)) ≠ e.observedSha256)
    "Observed qualification evidence digest is invalid."
  checkObservation env e
  reject ((e.commands.map (·.name) ≠ plan.commands ∨ e.commands.all commandPassed = false) ∧
    e.operation ≠ .reproducibility ∧ e.exitCode = 0) "Qualification pass requires every planned command to pass."
  let reproducibilityStatus ← reproducibilityOf env db worker plan e
  reject (e.operation ≠ .reproducibility ∧ env.artifactRegistered e = false)
    "Qualification evidence artifact is not a registered native candidate output."
  return (plan, reproducibilityStatus)

def recordNativeQualification (auth : AuthenticatedWorker db) (value : Evidence) : Except String Recording := do
  let e ← parseEvidence env value
  let (plan, reproducibilityStatus) ← checkEvidence env db auth.worker e
  let row := evidenceRow env plan e reproducibilityStatus
  match db.evidence.find? fun other => other.planId = row.planId && other.reportSha256 = row.reportSha256 with
  | some other => return .duplicate other
  | none => return .insert row

end
end Omapkg.Server.NativeEvidence
