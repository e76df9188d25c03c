import Omapkg.Client.Channels
import Omapkg.Client.Commit
import Omapkg.Client.Config
import Omapkg.Client.Discover
/-!
# Stage and Apply

`src/omarchy/manifest-client/transaction.go`: `stage` writes a pacman
configuration, a plan and the metadata of a transaction for review, and
`apply` verifies the transaction again, runs pacman and commits.
-/

namespace Omapkg.Client

open Utf Record

/-! ## Paths -/

/-- `filepath.Join` of a directory and a name. -/
def joinFile (directory name : String) : String :=
  String.ofList (pathClean (if directory = "" then name.toList else directory.toList ++ '/' :: name.toList))

def stagedConfigPath (options : TransactionOptions) : String := joinFile options.stageDir "pacman.conf"

def planFilePath (options : TransactionOptions) : String := joinFile options.stageDir "transaction-plan.txt"

def metadataPath (options : TransactionOptions) : String := joinFile options.stageDir "metadata.json"

/-! ## pacman -/

def maxPlanBytes : Nat := 2097152

def pacmanArgs (config : String) (rollbackAuthorized : Bool) (preview : Bool) : List String :=
  ["--config", config, "--sync", "--sysupgrade", "--refresh"] ++ (if preview then ["--print"] else []) ++
    if rollbackAuthorized then ["--sysupgrade"] else []

/-- A run of pacman over a configuration, which it reads as it starts. -/
def runPacman (env : Env) (binary config : String) (args : List String) : Run PacmanRun :=
  .step (fun d => d.called ⟨d.bytes config, args⟩) fun d => .done (env.pacman binary (d.bytes config) args)

def planHeader (tx : Transaction) : String :=
  let constraints := "; ".intercalate tx.recovery.constraints
  let recovery := if constraints = "" then
    "downgrade blocked unless a signed recovery transaction authorizes it" else constraints
  "Release: " ++ tx.releaseId ++ "\nSystem: " ++ tx.identity.version ++ "\nOPR: " ++ tx.identity.generation ++
    "\nArchitecture: " ++ tx.architecture ++ "\nManifest: " ++ tx.digest ++ "\nRecovery: " ++ recovery ++
    "\nRepositories (signed order):\n" ++
    String.join (tx.repositories.map fun r => "  " ++ r.name ++ " " ++ r.packageBaseUrl ++ "\n") ++
    "\nPacman preview:\n"

/-- `runPacmanPreview`: the plan, and an error where pacman had one. -/
def previewPlan (tx : Transaction) (run : PacmanRun) : Bytes × Option GoError :=
  if run.output.length > maxPlanBytes then
    (run.output.take maxPlanBytes, some (.new "pacman transaction preview exceeds size limit"))
  else (utf8 (planHeader tx) ++ run.output, if run.success then none else some (.new "exit status"))

/-! ## Configurations -/

/-- `readConfig`: the bytes of a file and its permissions. -/
def readConfig (path : String) : Run (Bytes × Nat) := do
  match ← Prog.read fun d => d.files path with
  | some file => .done (file.bytes, file.mode % 512)
  | none => .fail notExist

section
variable (literal : List Char → Option (List Char)) (sha256 : Bytes → Hash.Digest) (client : ManifestClient)
  (env : Env)

/-! ## Repositories -/

/-- The database of a repository, its digest, its signature and its origin; the
network answers from `place` on. -/
def verifyRepositorySnapshot (place : Nat) (manifestUrl : String) (repository : Repository) : Except GoError Unit := do
  let bytes ← (fetch literal client env place repository.dbUrl 134217728).mapError
    (.wrap ("fetch " ++ repository.name ++ " repository database"))
  if sha256Hex sha256 bytes ≠ lowerText repository.snapshotDigest then
    .error (.errorf "%s repository database digest does not match manifest" [repository.name])
  else
    let signature ← (fetch literal client env (place + 1) repository.signatureUrl maxSignatureBytes).mapError
      (.wrap ("fetch " ++ repository.name ++ " repository signature"))
    (verifyOpenPGP client env place bytes signature).mapError
      (.wrap ("verify " ++ repository.name ++ " repository signature"))
    validateSameOrigin literal manifestUrl repository.dbUrl

def verifyRepositorySnapshots (manifestUrl : String) : Nat → List Repository → Except GoError Unit
  | _, [] => .ok ()
  | place, repository :: rest => do
    verifyRepositorySnapshot literal sha256 client env place manifestUrl repository
    verifyRepositorySnapshots manifestUrl (place + 2) rest

/-! ## Stage -/

/-- The transaction a client asks for, and where its manifest is. -/
def resolveRequested (options : TransactionOptions) : Except GoError (DiscoveryReference × Transaction) := do
  let ref ← resolveRequestedRef literal client env options.manifestUrl options.discoveryUrl
  let tx ← resolveAt literal sha256 client env ref.manifestUrl ref.signatureUrl
  validateTimes tx (env.now 9)
  .ok (ref, tx)

def stageMetadata (options : TransactionOptions) (ref : DiscoveryReference) (tx : Transaction)
    (config plan : Bytes) (rollbackAuthorized : Bool) : StageMetadata where
  schemaVersion := 1
  manifestUrl := ref.manifestUrl
  signatureUrl := ref.signatureUrl
  channel := tx.channel
  manifestSha256 := tx.digest
  baseConfigSha256 := sha256Hex sha256 config
  stagedConfig := stagedConfigPath options
  planPath := planFilePath options
  planSha256 := sha256Hex sha256 plan
  stagedAt := wrapInt64 (env.now 1)
  rollbackAuthorized := rollbackAuthorized

/-- The previewed plan, which is kept even where pacman failed. -/
def writePlan (options : TransactionOptions) (plan : Bytes) (failure : Option GoError) : Run Unit := do
  atomicWrite (planFilePath options) plan 0o600
  match failure with
  | some e => .fail (.wrap "pacman transaction preview failed" e)
  | none => .done ()

def stage (options : TransactionOptions) : Run (Transaction × Bytes) := do
  if (options.manifestUrl = "" ∧ options.discoveryUrl = "" ∧
      (client.discoveryOrigin = "" ∨ client.expectedChannel = "")) ∨ options.configPath = "" ∨
      options.statePath = "" ∨ options.stageDir = "" ∨ options.pacman = "" then
    .fail (.new "manifest, config, state, stage and pacman paths are required")
  else
    recoverPending sha256 options
    let (ref, tx) ← Prog.ofExcept (resolveRequested literal sha256 client env options)
    let file ← readFile options.statePath
    let stored ← Prog.ofExcept (readState file)
    let state := stateForChannel stored tx.channel
    let rollbackAuthorized := rollbackAllowed state tx
    Prog.ofExcept (validateFreshness state tx rollbackAuthorized)
    let (config, mode) ← readConfig options.configPath
    let rendered ← Prog.ofExcept (rewriteConfig config tx.repositories)
    Prog.ofExcept (verifyRepositorySnapshots literal sha256 client env ref.manifestUrl 10 tx.repositories)
    Prog.modify fun d => d.remove (metadataPath options)
    Prog.modify fun d => d.remove (planFilePath options)
    atomicWrite (stagedConfigPath options) rendered mode
    let preview ← runPacman env options.pacman (stagedConfigPath options)
      (pacmanArgs (stagedConfigPath options) rollbackAuthorized true)
    let (plan, failure) := previewPlan tx preview
    writePlan options plan failure
    let metadata := stageMetadata sha256 env options ref tx config plan rollbackAuthorized
    atomicWrite (metadataPath options) (marshal stageMetadataCodec metadata) 0o600
    .done (tx, plan)

/-! ## Apply -/

def checkMetadata (data : Option Bytes) : Except GoError StageMetadata :=
  match data with
  | none => .error (.wrap "read staged transaction" notExist)
  | some data =>
    match unmarshal stageMetadataCodec .zero data with
    | none => .error (.new "staged transaction metadata is invalid")
    | some metadata =>
      if metadata.schemaVersion ≠ 1 then .error (.new "staged transaction metadata is invalid")
      else if metadata.manifestUrl = "" ∨ metadata.manifestSha256 = "" then
        .error (.new "staged transaction metadata is incomplete")
      else .ok metadata

/-- The transaction that was staged, verified again. -/
def resolveStaged (metadata : StageMetadata) : Except GoError Transaction := do
  let tx ← resolveAt literal sha256 client env metadata.manifestUrl metadata.signatureUrl
  if tx.digest ≠ metadata.manifestSha256 then .error (.new "staged manifest bytes changed")
  else if metadata.channel ≠ "" ∧ metadata.channel ≠ tx.channel then .error (.new "staged channel changed")
  else
    validateTimes tx (env.now 9)
    .ok tx

def checkBaseConfig (metadata : StageMetadata) (config : Bytes) : Except GoError Unit :=
  if sha256Hex sha256 config ≠ metadata.baseConfigSha256 then
    .error (.new "pacman config changed after review; restage transaction")
  else if metadata.stagedConfig = "" then .error (.new "staged config path is missing")
  else if metadata.planPath = "" ∨ metadata.planSha256 = "" then
    .error (.new "staged transaction review plan is incomplete")
  else .ok ()

def checkPlan (metadata : StageMetadata) (plan : Option Bytes) : Except GoError Unit :=
  if plan.map (sha256Hex sha256) = some metadata.planSha256 then .ok ()
  else .error (.new "staged review plan changed; restage transaction")

def checkStaged (staged : Option Bytes) : Except GoError Unit :=
  if staged.isNone then .error (.wrap "staged pacman config is unavailable" notExist) else .ok ()

def checkPacman (run : PacmanRun) : Except GoError Unit :=
  if run.success then .ok ()
  else .error (.errorf "pacman transaction failed: %w (%s)" [String.ofList (decode run.output)])

/-- The state of a channel once a transaction is applied over `state`. -/
def appliedState (state : LocalState) (tx : Transaction) (newConfig : Bytes) : LocalState where
  schemaVersion := 1
  manifestSha256 := tx.digest
  releaseId := tx.releaseId
  channel := tx.channel
  systemVersion := tx.identity.version
  oprGeneration := tx.identity.generation
  architecture := tx.architecture
  systemManifestSha256 := tx.systemRef.digest
  oprManifestSha256 := tx.oprRef.digest
  sequence := tx.sequence
  systemSequence := max state.systemSequence tx.systemRef.sequence
  oprSequence := max state.oprSequence tx.oprRef.sequence
  appliedAt := wrapInt64 (env.now 1)
  configSha256 := sha256Hex sha256 newConfig
  recoveryTarget :=
    match tx.recovery.target with
    | some target => target.digest
    | none => tx.recovery.fromDigest
  recoveryLimits := "; ".intercalate tx.recovery.constraints
  channels := []

def commitMarker (options : TransactionOptions) (metadata : StageMetadata) (mode : Nat) (state : LocalState) :
    CommitMarker where
  schemaVersion := 1
  configPath := options.configPath
  stagedConfig := metadata.stagedConfig
  statePath := options.statePath
  configMode := mode
  state := state

/-- What `apply` does once pacman has run. -/
def commit (options : TransactionOptions) (marker : CommitMarker) : Run Unit := do
  (atomicWrite (markerPath options) (marshal commitMarkerCodec marker) 0o600).mapError
    (.wrap "persist commit marker")
  recoverPending sha256 options

def apply (options : TransactionOptions) : Run Transaction := do
  recoverPending sha256 options
  let data ← readFile (metadataPath options)
  let metadata ← Prog.ofExcept (checkMetadata data)
  let tx ← Prog.ofExcept (resolveStaged literal sha256 client env metadata)
  let file ← readFile options.statePath
  let stored ← Prog.ofExcept (readState file)
  let state := stateForChannel stored tx.channel
  let rollbackAuthorized := rollbackAllowed state tx
  Prog.ofExcept (validateFreshness state tx rollbackAuthorized)
  let (config, mode) ← readConfig options.configPath
  Prog.ofExcept (checkBaseConfig sha256 metadata config)
  let plan ← readFile metadata.planPath
  Prog.ofExcept (checkPlan sha256 metadata plan)
  let staged ← readFile metadata.stagedConfig
  Prog.ofExcept (checkStaged staged)
  Prog.ofExcept (verifyRepositorySnapshots literal sha256 client env metadata.manifestUrl 10 tx.repositories)
  let run ← runPacman env options.pacman metadata.stagedConfig
    (pacmanArgs metadata.stagedConfig rollbackAuthorized false)
  Prog.ofExcept (checkPacman run)
  let newConfig ← (readExisting metadata.stagedConfig).mapError
    (.wrap "read staged pacman config after transaction")
  let saved := saveChannelState stored tx.channel (appliedState sha256 env state tx newConfig)
  commit sha256 options (commitMarker options metadata mode saved)
  .done tx

end

end Omapkg.Client
