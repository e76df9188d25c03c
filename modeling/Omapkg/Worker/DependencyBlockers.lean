import Omapkg.Lib.Hash
import Omapkg.Worker.PackageMetadata
/-!
# What the worker reports of a failure

The findings of `src/worker/runtime_dependencies.go` and the blockers that
`src/worker/analysis.go` makes of them, or of the log of an installation.
Which problems an inspected root has is asked of the outside: any of them, in
any order.
-/

namespace Omapkg.Worker

open Json Utf Omapkg.Client
open Omapkg.Server (isAlnum)
open Omapkg.Server.Arch (isWord isRelationChar isVersionText)

/-! ## Findings -/

structure AnalysisFinding where
  code : String
  level : String
  detail : String
  dependency : Option String
  sha256 : String
  deriving DecidableEq

/-- No control characters. -/
def analysisText (value : String) : Bool := value.toList.all fun c => 32 ≤ c.toNat && c.toNat ≠ 127

/-- A text that the inspection of a package or of the installed packages took. -/
structure RuntimeText where
  value : String
  clean : analysisText value = true

/-- A problem that the checks of a root come upon, with the texts it is told with. -/
inductive RuntimeProblem where
  | dependencyNotSatisfied (relation : RuntimeText)
  | dependencyDuplicatedOptdepend (name : RuntimeText)
  | libdependsWithoutVersion (relation : RuntimeText)
  | libprovidesWithoutVersion (relation : RuntimeText)
  | runtimeFileMissing (path usedBy : RuntimeText)
  | libraryNoPackageAssociated (path usedBy : RuntimeText)
  | unresolvedLoaderSearch (path needed : RuntimeText)
  | dependencyDetectedButOptional (name usedBy : RuntimeText)
  | dependencyDetectedNotIncluded (owner usedBy : RuntimeText)
  | libraryNotFound (needed path : RuntimeText)
  | scriptInterpreterInvalid (name cause : RuntimeText)

namespace RuntimeProblem

def code : RuntimeProblem → String
  | dependencyNotSatisfied _ => "dependency-not-satisfied"
  | dependencyDuplicatedOptdepend _ => "dependency-duplicated-optdepend"
  | libdependsWithoutVersion _ => "libdepends-without-version"
  | libprovidesWithoutVersion _ => "libprovides-without-version"
  | runtimeFileMissing _ _ => "runtime-file-missing"
  | libraryNoPackageAssociated _ _ => "library-no-package-associated"
  | unresolvedLoaderSearch _ _ => "library-no-package-associated"
  | dependencyDetectedButOptional _ _ => "dependency-detected-but-optional"
  | dependencyDetectedNotIncluded _ _ => "dependency-detected-not-included"
  | libraryNotFound _ _ => "library-not-found"
  | scriptInterpreterInvalid _ _ => "script-interpreter-invalid"

def level : RuntimeProblem → String
  | libraryNoPackageAssociated _ _ | unresolvedLoaderSearch _ _ | dependencyDetectedButOptional _ _ => "warning"
  | _ => "error"

/-- What follows the code. -/
def text : RuntimeProblem → String
  | dependencyNotSatisfied relation => " " ++ relation.value
  | dependencyDuplicatedOptdepend name => " " ++ name.value
  | libdependsWithoutVersion relation => " " ++ relation.value
  | libprovidesWithoutVersion relation => " " ++ relation.value
  | runtimeFileMissing path usedBy => " " ++ path.value ++ " used by " ++ usedBy.value
  | libraryNoPackageAssociated path usedBy => " " ++ path.value ++ " used by " ++ usedBy.value
  | unresolvedLoaderSearch path needed => ": unresolved loader search token for " ++ path.value ++ " needing " ++ needed.value
  | dependencyDetectedButOptional name usedBy => " " ++ name.value ++ " used by " ++ usedBy.value
  | dependencyDetectedNotIncluded owner usedBy => " " ++ owner.value ++ " used by " ++ usedBy.value
  | libraryNotFound needed path => " " ++ needed.value ++ " needed by " ++ path.value
  | scriptInterpreterInvalid name cause => " " ++ name.value ++ ": " ++ cause.value

def detail (problem : RuntimeProblem) : String := problem.code ++ problem.text

/-- The dependency that is named, or an empty text. -/
def dependency : RuntimeProblem → String
  | dependencyNotSatisfied relation => relation.value
  | dependencyDuplicatedOptdepend name => name.value
  | libdependsWithoutVersion relation => relation.value
  | libprovidesWithoutVersion relation => relation.value
  | dependencyDetectedButOptional name _ => name.value
  | dependencyDetectedNotIncluded owner _ => owner.value
  | _ => ""

end RuntimeProblem

section
variable (sha256 : Bytes → Hash.Digest)

/-- `hashBytes([]byte(level + "\n" + code + "\n" + detail))`. -/
def findingDigest (problem : RuntimeProblem) : String :=
  (sha256 (encode (problem.level ++ "\n" ++ problem.code ++ "\n" ++ problem.detail).toList)).hex

/-- `add`: the findings with one more, unless it is one of them. -/
def addFinding (problem : RuntimeProblem) (findings : List AnalysisFinding) : Except GoError (List AnalysisFinding) :=
  if (encode problem.detail.toList).length > 4096 then .error (.new "runtime finding exceeds limit")
  else if findings.any (·.sha256 = findingDigest sha256 problem) = true then .ok findings
  else if 1024 ≤ findings.length then .error (.new "runtime findings exceed 1024 entries")
  else .ok (findings ++ [{
    code := problem.code
    level := problem.level
    detail := problem.detail
    dependency := if problem.dependency = "" then none else some problem.dependency
    sha256 := findingDigest sha256 problem }])

def addFindings : List RuntimeProblem → List AnalysisFinding → Except GoError (List AnalysisFinding)
  | [], findings => .ok findings
  | problem :: rest, findings => do
    let findings ← addFinding sha256 problem findings
    addFindings rest findings

/-- The findings of what the checks come upon, in the order of their digests. -/
def checkDependencies (problems : List RuntimeProblem) : Except GoError (List AnalysisFinding) := do
  let findings ← addFindings sha256 problems []
  .ok (findings.insertionSort fun a b => a.sha256 ≤ b.sha256)

end

/-! ## Relations -/

/-- The text around the first occurrence of an operator. -/
def cutOperator (operator : List Char) : List Char → Option (List Char × List Char)
  | [] => none
  | c :: cs =>
    if operator.isPrefixOf (c :: cs) = true then some ([], (c :: cs).drop operator.length)
    else (cutOperator operator cs).map fun x => (c :: x.1, x.2)

def validArchVersion (value : List Char) : Bool :=
  if isVersionText value = false then false
  else
    match value.span (· ≠ ':') with
    | (_, []) => true
    | (epoch, _ :: rest) => epoch ≠ [] && !rest.contains ':' && epoch.all (·.isDigit)

def archOperators : List (List Char) := [['>', '='], ['<', '='], ['='], ['>'], ['<']]

def validArchDependency (value : List Char) : Bool :=
  if value = [] ∨ trimSpace value ≠ value then false
  else
    match archOperators.findSome? fun operator => cutOperator operator value with
    | some (name, version) => isWord isAlnum isRelationChar 63 name && validArchVersion version
    | none => isWord isAlnum isRelationChar 63 value

/-! ## Blockers -/

structure DependencyBlocker where
  relation : String
  phase : String
  resolution : String
  detail : String
  findingSha256 : String
  deriving DecidableEq

/-- A field with `omitempty`. -/
def omitEmpty (name value : String) : List (String × Json String) := if value = "" then [] else [(name, .str value)]

/-- What `json.Marshal` writes. -/
def DependencyBlocker.json (b : DependencyBlocker) : Json String := .obj (
  omitEmpty "relation" b.relation ++
  [("phase", .str b.phase), ("resolution", .str b.resolution), ("detail", .str b.detail)] ++
  omitEmpty "findingSha256" b.findingSha256)

/-- The member `dependencyBlockers` of a completion, if it has one. -/
def blockersJson (blockers : List DependencyBlocker) : Option (Json String) :=
  if blockers = [] then none else some (.arr (blockers.map DependencyBlocker.json))

structure RuntimeException where
  findingSha256 : String
  reason : String
  deriving DecidableEq

def isAmbiguous (finding : AnalysisFinding) : Bool :=
  ["library-no-package-associated", "dependency-detected-but-optional",
    "dependency-implicitly-satisfied-optional"].contains finding.code && finding.level ≠ "error"

/-- The finding is an error, or one of those that an exception could be made for and was not. -/
def needsReview (exceptions : List RuntimeException) (finding : AnalysisFinding) : Bool :=
  finding.level = "error" ||
    (isAmbiguous finding && !exceptions.any fun exemption => exemption.findingSha256 = finding.sha256)

def reviewBlocker (finding : AnalysisFinding) : DependencyBlocker where
  relation := (finding.dependency.filter fun dependency => validArchDependency dependency.toList).getD ""
  phase := "runtime"
  resolution := if isAmbiguous finding then "exception" else "recipe"
  detail := finding.detail
  findingSha256 := finding.sha256

/-- The blockers of `analyzePackage`: of the first finding to review. -/
def analyzePackage (exceptions : List RuntimeException) : List AnalysisFinding → List DependencyBlocker
  | [] => []
  | finding :: rest =>
    if needsReview exceptions finding = true then [reviewBlocker finding] else analyzePackage exceptions rest

def missingBlocker (dependency : String) : DependencyBlocker where
  relation := dependency
  phase := "build"
  resolution := "dependency"
  detail := "Approved repositories could not resolve " ++ dependency
  findingSha256 := ""

/-- `strings.Contains(log, "error: target not found: "+dependency+"\n")`. -/
def isMissing (log : Bytes) (dependency : String) : Bool :=
  log.tails.any (encode ("error: target not found: " ++ dependency ++ "\n").toList).isPrefixOf

/-- The loop of `missingPackageError`. -/
def missingBlockers (log : Bytes) : List String → List DependencyBlocker → List DependencyBlocker
  | [], blockers => blockers
  | dependency :: rest, blockers =>
    let blockers := if isMissing log dependency = true then blockers ++ [missingBlocker dependency] else blockers
    if blockers.length = 16 then blockers else missingBlockers log rest blockers

/-- The blockers of `missingPackageError`. -/
def missingPackageError (log : Bytes) (dependencies : List String) : List DependencyBlocker :=
  missingBlockers log dependencies []

end Omapkg.Worker
