import Omapkg.Client.GoStruct
import Omapkg.Lib.Hash
/-!
# The reproducibility contract of a build

What `src/worker/reproducibility.go` reports of one build: its inputs, the
checks that were made and the set of its outputs, with the digests of canonical
texts. A text is canonical when its value was decoded into maps and encoded
again.
-/

namespace Omapkg.Worker

open Json Utf Omapkg.Client

/-! ## Jobs -/

structure Source where
  name : String
  url : String
  sha256 : String
  deriving DecidableEq

structure DependencyPackage where
  releaseId : String
  name : String
  version : String
  architecture : String
  filename : String
  url : String
  sha256 : String
  size : Nat
  signatureUrl : String
  signatureSha256 : String
  deriving DecidableEq

structure DependencyPlan where
  channel : String
  publicKeyUrl : String
  publicKeyFingerprint : String
  packages : List DependencyPackage
  runtimeReleaseIds : Option (List String)
  deriving DecidableEq

/-- What the contract takes from a job. A list is nil, or a list; a lock is its digest. -/
structure Job where
  architecture : String
  recipeSha256 : String
  imageDigest : String
  sourceDateEpoch : Nat
  sources : Option (List Source)
  inputLock : Option String
  dependencyPlan : Option DependencyPlan
  factoryRunId : String
  factoryAttempt : Nat
  factoryInputSha256 : String
  deriving DecidableEq

structure ReproducibilityOutput where
  filename : String
  size : Nat
  sha256 : Hash.Digest

structure SingleBuildObservation where
  archivePathsInspected : Bool
  archiveMetadataInspected : Bool
  timestampOwnershipOrderChecked : Bool
  unexpectedOutputs : List String
  prohibitedPaths : List String

/-! ## Values -/

def jsonNat (n : Nat) : Json String := .num (.ofNat n)

def Source.json (s : Source) : Json String := .obj [("name", .str s.name), ("url", .str s.url), ("sha256", .str s.sha256)]

/-- A slice, which is null when it is nil. -/
def sliceJson {α : Type} (f : α → Json String) : Option (List α) → Json String
  | none => .null
  | some xs => .arr (xs.map f)

def DependencyPackage.json (p : DependencyPackage) : Json String := .obj [
  ("releaseId", .str p.releaseId), ("name", .str p.name), ("version", .str p.version),
  ("architecture", .str p.architecture), ("filename", .str p.filename), ("url", .str p.url), ("sha256", .str p.sha256),
  ("size", jsonNat p.size), ("signatureUrl", .str p.signatureUrl), ("signatureSha256", .str p.signatureSha256)]

def DependencyPlan.json (p : DependencyPlan) : Json String := .obj ([
  ("channel", .str p.channel), ("publicKeyUrl", .str p.publicKeyUrl),
  ("publicKeyFingerprint", .str p.publicKeyFingerprint), ("packages", .arr (p.packages.map DependencyPackage.json))] ++
  -- omitted when empty
  (p.runtimeReleaseIds.map fun ids => ("runtimeReleaseIds", Json.arr (ids.map .str))).toList)

def ReproducibilityOutput.json (o : ReproducibilityOutput) : Json String := .obj [
  ("filename", .str o.filename), ("size", jsonNat o.size), ("sha256", .str o.sha256.hex)]

/-- `reproducibilityOutputDigestValues`. -/
def outputDigestValues (outputs : List ReproducibilityOutput) : Json String := .arr (outputs.map fun o =>
  .obj [("filename", .str o.filename), ("sha256", .str o.sha256.hex), ("size", jsonNat o.size)])

def canonicalReproJSON (value : Json String) : List Char := (goValue value).print htmlQuote

/-! ## The contract -/

section
variable (sha256 : Bytes → Hash.Digest)

def hashText (text : List Char) : String := (sha256 (encode text)).hex

def Job.dependencyPlanSha256 (job : Job) : String :=
  match job.dependencyPlan with
  | none => ""
  | some plan => hashText sha256 (canonicalReproJSON plan.json)

def inputsJson (job : Job) : Json String := .obj [
  ("recipeSha256", .str job.recipeSha256),
  ("sourceManifestSha256", .str (hashText sha256 (canonicalReproJSON (sliceJson Source.json job.sources)))),
  ("inputLockSha256", .str (job.inputLock.getD "")),
  ("dependencyPlanSha256", .str (job.dependencyPlanSha256 sha256)),
  ("imageDigest", .str job.imageDigest),
  ("sourceDateEpoch", jsonNat job.sourceDateEpoch)]

def controlsJson (job : Job) (observation : Option SingleBuildObservation) : Json String := .obj [
  ("network", .str "disabled"), ("locale", .str "C"), ("timezone", .str "UTC"), ("umask", .str "022"),
  ("hostSecrets", .str "excluded"), ("writableCaches", .str "excluded"), ("nativeTarget", .str job.architecture),
  ("archivePathsChecked", .bool (observation.any (·.archivePathsInspected))),
  ("archiveMetadataChecked", .bool (observation.any (·.archiveMetadataInspected))),
  ("timestampOwnershipOrderChecked", .bool (observation.any (·.timestampOwnershipOrderChecked)))]

def outputsJson (outputs : List ReproducibilityOutput) (observation : Option SingleBuildObservation) : Json String := .obj [
  ("setSha256", .str (hashText sha256 (canonicalReproJSON (outputDigestValues outputs)))),
  ("files", .arr (outputs.map ReproducibilityOutput.json)),
  ("unexpected", .arr ((observation.elim [] (·.unexpectedOutputs)).map .str)),
  ("prohibitedPaths", .arr ((observation.elim [] (·.prohibitedPaths)).map .str))]

def limitationsJson : Json String := .arr [
  .str "single execution does not establish independent byte reproduction",
  .str "static archive inspection cannot prove arbitrary upstream code is deterministic"]

def executionJson (job : Job) : Json String := .obj [
  ("runId", .str job.factoryRunId), ("attempt", jsonNat job.factoryAttempt), ("inputSha256", .str job.factoryInputSha256)]

def singleBuildContract (job : Job) (outputs : List ReproducibilityOutput) (observation : Option SingleBuildObservation) :
    Json String := .obj ([
  ("schemaVersion", jsonNat 1),
  ("status", .str "reproducibility-contract-verified"),
  ("mode", .str "single-build"),
  ("target", .str job.architecture),
  ("inputs", inputsJson sha256 job),
  ("controls", controlsJson job observation),
  ("outputs", outputsJson sha256 outputs observation),
  ("limitations", limitationsJson)] ++
  if job.factoryRunId ≠ "" then [("execution", executionJson job)] else [])

end

end Omapkg.Worker
