import Mathlib
import Omapkg.Lib.Fallible
import Omapkg.Server.Arch
import Omapkg.Server.Manifest
import Omapkg.Wire.Relations
import Omapkg.Worker.DependencyBlockers
/-!
# Output contracts

`parseOutputContract` of `src/src/lib/output-contract.ts` against `validateOutputContract` of
`src/worker/outputs.go`. The server tests a name by the text that it makes of any value; the
worker reads texts only, so that its decoder refuses a contract with another value there.
-/

namespace Omapkg.Wire.Contract

open Server.Arch (isWord isPackageName isVersionChar isVersionText isLowerAlnum isNameChar splitRelease)
open Server (Architecture isAlnum)

abbrev Text := List Char

/-! ## The server -/

/-- A value where a text belongs: a text, or another value with what `===` tells apart and with the text that
`String` makes of it. -/
inductive Field where
  | text (s : Text)
  | other (identity : Nat) (spelled : Text)
  deriving DecidableEq

def Field.spelled : Field → Text
  | .text s => s
  | .other _ spelled => spelled

structure ExpectedOutput where
  name : Field
  fullVersion : Field
  architecture : Field

/-- An object with these members and no others; a number is none where it is no integer. -/
structure OutputContract where
  schemaVersion : Option Int
  cohortId : Field
  revision : Option Int
  manifestSha256 : Field
  outputs : List ExpectedOutput
  runtimeGroups : List (List Field)

def maxBuildOutputs : Nat := 256

def maxSafeInteger : Int := 9007199254740991

def archText (architecture : Architecture) : Text := architecture.text.toList

def anyText : Text := "any".toList

def packageSuffix : Text := ".pkg.tar.zst".toList

def packageFilename (output : ExpectedOutput) : Text :=
  output.name.spelled ++ '-' :: (output.fullVersion.spelled ++ '-' :: (output.architecture.spelled ++ packageSuffix))

/-- `/^[A-Za-z0-9][A-Za-z0-9_-]{0,127}$/`. -/
def isIdText (s : Text) : Bool := isWord isAlnum (fun c => isAlnum c || c = '_' || c = '-') 127 s

/-- `/^[a-f0-9]{64}$/`. -/
def isSha256Text (s : Text) : Bool := s.length = 64 && s.all fun c => c.isDigit || ('a' ≤ c && c ≤ 'f')

def isPkgverChar (c : Char) : Bool := isAlnum c || "@._+%".toList.contains c

/-- `isArchPkgver`. -/
def isArchPkgver (s : Text) : Bool := isWord isAlnum isPkgverChar 127 s

/-- `[1-9][0-9]{0,3}`. -/
def isCount (s : Text) : Bool := isWord (fun c => c.isDigit && c ≠ '0') Char.isDigit 3 s

def isOutputRelease (s : Text) : Bool :=
  match s.span (· ≠ '.') with
  | (a, []) => isCount a
  | (a, _ :: b) => isCount a && isCount b

/-- `/^(.+)-([1-9]\d{0,3}(?:\.[1-9]\d{0,3})?)$/`: a release has no hyphen. A line end in the first part is refused by
`isArchPkgver`. -/
def readVersion (s : Text) : Option Text :=
  match splitRelease s with
  | some (pkgver, release) => if pkgver ≠ [] ∧ isOutputRelease release = true then some pkgver else none
  | none => none

/-- The second group of the pattern, whose epoch may be left out. -/
def versionGroup (s : Text) : Option Text :=
  match s.span Char.isDigit with
  | (_ :: _, ':' :: rest) => (readVersion rest).or (readVersion s)
  | _ => readVersion s

def isFullVersion : Field → Bool
  | .text s => (versionGroup s).any isArchPkgver && s.length ≤ 128
  | .other _ _ => false

def isExpected (target : Architecture) (output : ExpectedOutput) : Bool :=
  isPackageName output.name.spelled && isFullVersion output.fullVersion &&
    (output.architecture = .text (archText target) || output.architecture = .text anyText)

/-- `[...group].sort().join(' ')`. -/
def groupKey (group : List Text) : Text := [' '].intercalate (group.insertionSort (· ≤ ·))

def parseOutputContract (item : OutputContract) (target : Architecture) : Except String OutputContract :=
  if item.schemaVersion ≠ some 2 ∨ isIdText item.cohortId.spelled = false ∨
      (item.revision.any fun n => 1 ≤ n ∧ n ≤ maxSafeInteger) = false ∨
      isSha256Text item.manifestSha256.spelled = false ∨ item.outputs = [] ∨ maxBuildOutputs < item.outputs.length then
    .error "Invalid build output contract"
  else if (item.outputs.all (isExpected target)) = false then .error "Invalid expected package output"
  else if (item.outputs.map (·.name)).dedup.length ≠ item.outputs.length then .error "Duplicate expected package output"
  else if item.runtimeGroups = [] ∨ maxBuildOutputs < item.runtimeGroups.length ∨
      (item.runtimeGroups.any fun group => group = [] || maxBuildOutputs < group.length ||
        group.dedup.length ≠ group.length || group.any fun name => name ∉ item.outputs.map (·.name)) = true ∨
      item.runtimeGroups.flatten.dedup.length ≠ item.outputs.length ∨
      (item.runtimeGroups.map fun group => groupKey (group.map Field.spelled)).dedup.length ≠ item.runtimeGroups.length then
    .error "Native installation groups must cover every output without duplicate groups"
  else .ok item

/-! ## The worker -/

structure WorkerOutput where
  name : Text
  fullVersion : Text
  architecture : Text

structure WorkerContract where
  schemaVersion : Int
  cohortId : Text
  revision : Int
  manifestSha256 : Text
  outputs : List WorkerOutput
  runtimeGroups : List (List Text)

def Field.asText : Field → Option Text
  | .text s => some s
  | .other _ _ => none

def ExpectedOutput.decode (output : ExpectedOutput) : Option WorkerOutput := do
  let name ← output.name.asText
  let fullVersion ← output.fullVersion.asText
  let architecture ← output.architecture.asText
  some ⟨name, fullVersion, architecture⟩

/-- `json.Unmarshal`, which reads no other value into a string. -/
def decode (item : OutputContract) : Option WorkerContract := do
  let schemaVersion ← item.schemaVersion
  let cohortId ← item.cohortId.asText
  let revision ← item.revision
  let manifestSha256 ← item.manifestSha256.asText
  let outputs ← item.outputs.mapM ExpectedOutput.decode
  let runtimeGroups ← item.runtimeGroups.mapM fun group => group.mapM Field.asText
  some ⟨schemaVersion, cohortId, revision, manifestSha256, outputs, runtimeGroups⟩

inductive Surface where
  | source | binary
  deriving DecidableEq

structure Job where
  surface : Surface
  attempt : Int
  architecture : Text

def outputFilename (item : WorkerOutput) : Text :=
  item.name ++ '-' :: (item.fullVersion ++ '-' :: (item.architecture ++ packageSuffix))

/-- `path.Base`. -/
def pathBase (path : Text) : Text :=
  if path = [] then ['.']
  else
    let last := ((path.reverse.dropWhile (· = '/')).takeWhile (· ≠ '/')).reverse
    if last = [] then ['/'] else last

/-- `dependencyFilenamePattern`. -/
def isDependencyFilename (filename : Text) : Bool :=
  packageSuffix.isSuffixOf filename && isWord isAlnum isVersionChar 220 (filename.take (filename.length - packageSuffix.length))

def validateArtifactFilename (filename : Text) : Bool :=
  filename.length ≤ 233 && isDependencyFilename filename && pathBase filename = filename

/-- What is left after the first colon. -/
def afterColon (version : Text) : Text :=
  match version.span (· ≠ ':') with
  | (_, []) => version
  | (_, _ :: rest) => rest

def isReleased (version : Text) : Bool :=
  match splitRelease (afterColon version) with
  | some (pkgver, release) => pkgver ≠ [] && isArchPkgver pkgver && isOutputRelease release
  | none => false

section
local instance : LawfulBEq Text := inferInstance

def checkOutputs (job : Job) : List Text → List WorkerOutput → Except String (List Text)
  | seen, [] => .ok seen
  | seen, output :: outputs =>
    if isPackageName output.name = false ∨ output.name ∈ seen ∨ Worker.validArchVersion output.fullVersion = false ∨
        isReleased output.fullVersion = false ∨ (output.architecture ≠ job.architecture ∧ output.architecture ≠ anyText) ∨
        validateArtifactFilename (outputFilename output) = false then
      .error "invalid expected package output"
    else checkOutputs job (output.name :: seen) outputs

/-- The names that are covered, with repetitions. -/
def checkGroups (seen : List Text) : List Text → List Text → List (List Text) → Except String (List Text)
  | covered, _, [] => .ok covered
  | covered, keys, group :: groups =>
    if group = [] ∨ maxBuildOutputs < group.length then .error "invalid installation group size"
    else if (group.any fun name => name ∉ seen) = true ∨ ¬group.Nodup then
      .error "installation group has an unknown or repeated output"
    else if groupKey group ∈ keys then .error "duplicate installation group"
    else checkGroups seen (covered ++ group) (groupKey group :: keys) groups

end

def validateOutputContract (job : Job) (contract : WorkerContract) : Except String Unit :=
  if contract.schemaVersion ≠ 2 ∨ job.surface ≠ .binary ∨ job.attempt < 1 ∨ isIdText contract.cohortId = false ∨
      contract.revision < 1 ∨ isSha256Text contract.manifestSha256 = false ∨ contract.outputs = [] ∨
      maxBuildOutputs < contract.outputs.length then
    .error "invalid multi-output build contract"
  else do
    let seen ← checkOutputs job [] contract.outputs
    if contract.runtimeGroups = [] ∨ maxBuildOutputs < contract.runtimeGroups.length then
      .error "invalid native installation groups"
    else
      let covered ← checkGroups seen [] [] contract.runtimeGroups
      if covered.dedup.length ≠ seen.length then .error "installation groups omit expected outputs" else .ok ()

end Omapkg.Wire.Contract
