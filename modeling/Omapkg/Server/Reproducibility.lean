import Omapkg.Lib.Hash
import Omapkg.Server.CanonicalJson
import Omapkg.Server.Decoded
/-!
# Checking a reproducibility contract

`validateReproducibilityContract` of `src/src/lib/server/output-evidence.ts`:
the contract of a build against its provenance, whose digests are made again.
-/

namespace Omapkg.Server.Evidence

open Utf Json

/-- The digest, and `left.localeCompare(right) <= 0`. -/
structure EvidenceEnv where
  sha256 : Bytes → Hash.Digest
  collate : String → String → Bool

def EvidenceEnv.digest (env : EvidenceEnv) (text : List Char) : String := (env.sha256 (encode text)).hex

/-- What the provenance says, as it was decoded. -/
structure ReproducibilityExpectation where
  architecture : String
  recipeSha256 : String
  imageDigest : String
  sourceDateEpoch : Nat
  sources : Json String
  inputLockSha256 : String
  dependencyPlan : Option (Json String)
  factoryRunId : Option String
  factoryAttempt : Option Nat
  factoryInputSha256 : Option String

structure EvidenceFile where
  filename : String
  size : Nat
  sha256 : String
  deriving DecidableEq

def EvidenceFile.json (f : EvidenceFile) : Json String := .obj [
  ("filename", .str f.filename), ("size", .num (.ofNat f.size)), ("sha256", .str f.sha256)]

/-- `canonicalJson` of a decoded value. -/
def canonicalText (v : Json String) : List Char := canonicalJson (v.map units)

def isBool (b : Bool) : Option (Json String) → Bool
  | some (.bool c) => b = c
  | _ => false

/-- A number that is a safe integer above zero. -/
def safeSize (n : Numeral) : Option Nat :=
  let size := Nat.ofDigitChars 10 n.text 0
  if n = .ofNat size ∧ 0 < size ∧ size ≤ 9007199254740991 then some size else none

def readFile : Json String → Except String EvidenceFile
  | entry =>
    if hasKeys ["filename", "size", "sha256"] [] entry = false then .error "Incomplete or unexpected v2 evidence fields"
    else
      match property "filename" entry, property "size" entry, property "sha256" entry with
      | some (.str filename), some (.num n), some (.str sha256) =>
        match safeSize n with
        | some size =>
          if Hash.isHexDigest sha256.toList = true then .ok ⟨filename, size, sha256⟩
          else .error "Invalid single-build reproducibility output"
        | none => .error "Invalid single-build reproducibility output"
      | _, _, _ => .error "Invalid single-build reproducibility output"

def isHeader (item : Json String) (expected : ReproducibilityExpectation) : Bool :=
  isNumber 1 (property "schemaVersion" item) && isText "reproducibility-contract-verified" (property "status" item) &&
    isText "single-build" (property "mode" item) && isText expected.architecture (property "target" item)

/-- The execution of a factory run is the one expected. -/
def isExecution (item : Json String) (expected : ReproducibilityExpectation) : Bool :=
  match expected.factoryRunId with
  | none => true
  | some runId =>
    match property "execution" item with
    | some execution =>
      hasKeys ["runId", "attempt", "inputSha256"] [] execution &&
        isText runId (property "runId" execution) &&
        expected.factoryAttempt.any (fun n => isNumber n (property "attempt" execution)) &&
        expected.factoryInputSha256.any fun s => isText s (property "inputSha256" execution)
    | none => false

def dependencyPlanSha256 (env : EvidenceEnv) (expected : ReproducibilityExpectation) : String :=
  match expected.dependencyPlan with
  | none => ""
  | some plan => env.digest (canonicalText plan)

def isInputs (env : EvidenceEnv) (expected : ReproducibilityExpectation) (inputs : Json String) : Bool :=
  hasKeys ["recipeSha256", "sourceManifestSha256", "inputLockSha256", "dependencyPlanSha256", "imageDigest",
    "sourceDateEpoch"] [] inputs &&
    isText expected.recipeSha256 (property "recipeSha256" inputs) &&
    isText (env.digest (canonicalText expected.sources)) (property "sourceManifestSha256" inputs) &&
    isText expected.inputLockSha256 (property "inputLockSha256" inputs) &&
    isText (dependencyPlanSha256 env expected) (property "dependencyPlanSha256" inputs) &&
    isText expected.imageDigest (property "imageDigest" inputs) &&
    isNumber expected.sourceDateEpoch (property "sourceDateEpoch" inputs)

def isControls (expected : ReproducibilityExpectation) (controls : Json String) : Bool :=
  hasKeys ["network", "locale", "timezone", "umask", "hostSecrets", "writableCaches", "nativeTarget",
    "archivePathsChecked", "archiveMetadataChecked", "timestampOwnershipOrderChecked"] [] controls &&
    isText "disabled" (property "network" controls) && isText "C" (property "locale" controls) &&
    isText "UTC" (property "timezone" controls) && isText "022" (property "umask" controls) &&
    isText "excluded" (property "hostSecrets" controls) && isText "excluded" (property "writableCaches" controls) &&
    isText expected.architecture (property "nativeTarget" controls) &&
    isBool true (property "archivePathsChecked" controls) && isBool true (property "archiveMetadataChecked" controls) &&
    isBool true (property "timestampOwnershipOrderChecked" controls)

def isEmptyList : Option (Json String) → Bool
  | some (.arr []) => true
  | _ => false

/-- The files of the output set, in the order of their names. -/
def readOutputs (env : EvidenceEnv) (outputs : Json String) : Except String (List EvidenceFile) :=
  if hasKeys ["setSha256", "files", "unexpected", "prohibitedPaths"] [] outputs = false then
    .error "Incomplete or unexpected v2 evidence fields"
  else if isEmptyList (property "unexpected" outputs) = false ∨ isEmptyList (property "prohibitedPaths" outputs) = false then
    .error "Single-build reproducibility output inspection is incomplete"
  else
    match property "files" outputs with
    | some (.arr entries) => do
      let read ← entries.mapM readFile
      let files := read.insertionSort fun a b => env.collate a.filename b.filename
      if isText (env.digest (canonicalText (.arr (files.map EvidenceFile.json)))) (property "setSha256" outputs) = false then
        .error "Single-build reproducibility output identity differs from provenance"
      else .ok files
    | _ => .error "Single-build reproducibility output inspection is incomplete"

def isLimitations : Option (Json String) → Bool
  | some (.arr xs) => 1 ≤ xs.length && xs.all fun x => match x with
    | .str _ => true
    | _ => false
  | _ => false

def validateReproducibilityContract (env : EvidenceEnv) (item : Json String) (expected : ReproducibilityExpectation) :
    Except String (List EvidenceFile) :=
  if hasKeys ["schemaVersion", "status", "mode", "target", "inputs", "controls", "outputs", "limitations"] ["execution"]
      item = false then .error "Incomplete or unexpected v2 evidence fields"
  else if isHeader item expected = false then .error "Single-build reproducibility contract is missing or invalid"
  else if isExecution item expected = false then
    .error "Factory execution identity differs from reproducibility evidence"
  else
    match property "inputs" item, property "controls" item, property "outputs" item with
    | some inputs, some controls, some outputs => do
      if isInputs env expected inputs = false then .error "Single-build reproducibility inputs do not match provenance"
      else if isControls expected controls = false then .error "Single-build reproducibility controls were not observed"
      else
        let files ← readOutputs env outputs
        if isLimitations (property "limitations" item) = false then
          .error "Single-build reproducibility limitations are missing"
        else .ok files
    | _, _, _ => .error "Incomplete or unexpected v2 evidence fields"

/-- The check of a report: its outputs are those of the contract, and every one has a name of the output contract. -/
def assertReproducibilityContract (env : EvidenceEnv) (item : Json String) (expected : ReproducibilityExpectation)
    (outputs : List (String × String)) (filenames : List String) : Except String Unit := do
  let files ← validateReproducibilityContract env item expected
  let reported := outputs.insertionSort fun a b => env.collate a.1 b.1
  if files.map (fun f => (f.filename, f.sha256)) ≠ reported ∨ ∃ f ∈ files, f.filename ∉ filenames then
    .error "Single-build reproducibility output identity differs from provenance"
  else .ok ()

end Omapkg.Server.Evidence
