import Omapkg.Client.State
import Omapkg.Server.Arch
/-!
# Package metadata of the worker

`parsePackageMetadata` of `src/worker/package_metadata.go`: what the worker
reads of a built package's `.PKGINFO`. Its patterns are those of `arch.ts`.
-/

namespace Omapkg.Worker

open Json Utf Omapkg.Client Omapkg.Server
open Omapkg.Server.Arch (isWord isRelationChar isPackageName isVersionText isSonameV1 isSoname afterColon)

structure PackageMetadata where
  packageBase : String
  name : String
  fullVersion : String
  architecture : String
  installedSize : Nat
  depends : List String
  provides : List String
  conflicts : List String
  replaces : List String
  deriving DecidableEq

/-- What `json.Marshal` is given; the package base is not written. -/
def PackageMetadata.json (m : PackageMetadata) : Json String := .obj [
  ("name", .str m.name), ("fullVersion", .str m.fullVersion), ("architecture", .str m.architecture),
  ("installedSize", .num (.ofNat m.installedSize)), ("depends", .arr (m.depends.map .str)),
  ("provides", .arr (m.provides.map .str)), ("conflicts", .arr (m.conflicts.map .str)),
  ("replaces", .arr (m.replaces.map .str))]

/-! ## Relations -/

def maxPackageRelations : Nat := 256

def maxPackageRelationBytes : Nat := 256

def parsePackageVersion (value : List Char) : Bool :=
  if isVersionText value = false then false
  else
    match value.span (· ≠ ':') with
    | (_, []) => true
    | (epoch, _ :: rest) => epoch ≠ [] && rest ≠ [] && !rest.contains ':' && epoch.all (·.isDigit)

def isOperatorChar (c : Char) : Bool := c = '<' || c = '>' || c = '='

/-- The operator that a text starts with and what follows it. -/
def takeOperator : List Char → Option (List Char × List Char)
  | [] => none
  | '<' :: '=' :: r => some (['<', '='], r)
  | '>' :: '=' :: r => some (['>', '='], r)
  | c :: r => some ([c], r)

/-- `strings.Contains(strings.ToLower(s), ".so")`. -/
def containsSo (s : List Char) : Bool := (s.map Char.toLower).tails.any fun r => ['.', 's', 'o'].isPrefixOf r

/-- The name of a relation, with the operator that follows it. -/
def checkRelationName (value name : List Char) (operator : Option (List Char)) (allowSoname : Bool) :
    Except GoError (List Char) :=
  if isWord isAlnum isRelationChar 63 name = true then .ok value
  else if isSonameV1 name = true then
    if allowSoname = false ∨ operator.any (· ≠ ['=']) = true then
      .error (.new "legacy SONAME relation is not allowed here")
    else .ok value
  else if operator.isSome ∧ isSoname name = true then .error (.new "SONAME relations cannot use a comparison operator")
  else if allowSoname = false ∨ isSoname name = false ∨ containsSo (afterColon name) = false then
    .error (.new "relation name is invalid")
  else .ok value

/-- A relation that the scan split at its first operator. -/
def checkRelation (value name rest : List Char) (provides allowSoname : Bool) : Except GoError (List Char) :=
  match takeOperator rest with
  | some (operator, version) =>
    -- the scan goes on behind the operator
    if version.any isOperatorChar = true then .error (.new "relation has multiple comparison operators")
    else if provides = true ∧ operator ≠ ['='] then .error (.new "provides may only use =")
    else if parsePackageVersion version = false then .error (.new "relation comparison operator is invalid")
    else checkRelationName value name (some operator) allowSoname
  | none => checkRelationName value name none allowSoname

def parsePackageRelation (value : List Char) (provides allowSoname : Bool) : Except GoError (List Char) :=
  if value = [] ∨ maxPackageRelationBytes < (encode value).length ∨
      value.any [' ', '\t', '\r', '\n', '\x00'].contains = true then
    .error (.new "relation has invalid length or whitespace")
  else
    let (name, rest) := value.span fun c => !isOperatorChar c
    checkRelation value name rest provides allowSoname

/-! ## Lines -/

/-- `strings.TrimSpace`. -/
def trimSpace (line : List Char) : List Char :=
  let isSpace := fun c => c = '\n' || isGoSpace c
  ((line.dropWhile isSpace).reverse.dropWhile isSpace).reverse

/-- `strings.Cut(line, " = ")`. -/
def cutField : List Char → Option (List Char × List Char)
  | [] => none
  | c :: cs =>
    if [' ', '=', ' '].isPrefixOf (c :: cs) then some ([], cs.drop 2)
    else (cutField cs).map fun x => (c :: x.1, x.2)

/-- `strconv.ParseInt(value, 10, 64)`. -/
def parseInt : List Char → Option Int
  | '+' :: r => if r.all (·.isDigit) then parseInt64 [] r else none
  | '-' :: r => if r.all (·.isDigit) then parseInt64 ['-'] r else none
  | r => if r.all (·.isDigit) then parseInt64 [] r else none

/-- The fields that a package has once. -/
def singleFields : List String := ["pkgbase", "pkgname", "pkgver", "arch", "size"]

def addRelation (key : String) (value : List Char) (provides allowSoname : Bool) (values : List String) :
    Except GoError (List String) :=
  match parsePackageRelation value provides allowSoname with
  | .error cause => .error (.wrap ("package metadata " ++ key ++ " is invalid") cause)
  | .ok relation =>
    if maxPackageRelations ≤ values.length then .error (.new "package metadata relation list is too large")
    else .ok (values ++ [String.ofList relation])

def setField (key : String) (value : List Char) (m : PackageMetadata) : Except GoError PackageMetadata :=
  if key = "pkgbase" then
    if isPackageName value = true then .ok { m with packageBase := String.ofList value }
    else .error (.new "package metadata build identity is invalid")
  else if key = "pkgname" then
    if isPackageName value = true then .ok { m with name := String.ofList value }
    else .error (.new "package metadata package name is invalid")
  else if key = "pkgver" then
    if parsePackageVersion value = true then .ok { m with fullVersion := String.ofList value }
    else .error (.new "package metadata package version is invalid")
  else if key = "arch" then .ok { m with architecture := String.ofList value }
  else if key = "size" then
    match parseInt value with
    | none => .error (.new "package metadata installed size is invalid")
    | some size =>
      if size < 0 ∨ 2 ^ 53 - 1 < size then .error (.new "package metadata installed size is outside JSON safe range")
      else .ok { m with installedSize := size.toNat }
  else if key = "depend" then
    (addRelation key value false true m.depends).map fun depends => { m with depends }
  else if key = "provides" then
    (addRelation key value true true m.provides).map fun provides => { m with provides }
  else if key = "conflict" then
    (addRelation key value false false m.conflicts).map fun conflicts => { m with conflicts }
  else if key = "replaces" then
    (addRelation key value false false m.replaces).map fun replaces => { m with replaces }
  else .ok m

/-- The metadata so far, and the single fields that were seen. -/
abbrev Reading := PackageMetadata × List String

def readLine (state : Reading) (line : List Char) : Except GoError Reading :=
  let line := trimSpace line
  if line = [] ∨ line.head? = some '#' then .ok state
  else
    match cutField line with
    | none => .ok state
    | some (key, value) =>
      let key := String.ofList key
      if singleFields.contains key = true then
        if state.2.contains key = true then .error (.errorf "duplicate .PKGINFO field %q" [key])
        else (setField key value state.1).map fun m => (m, key :: state.2)
      else (setField key value state.1).map fun m => (m, state.2)

def PackageMetadata.zero : PackageMetadata := ⟨"", "", "", "", 0, [], [], [], []⟩

def parsePackageMetadata (data : List Char) : Except GoError PackageMetadata := do
  let (metadata, seen) ← (splitAt '\n' data).foldlM readLine (.zero, [])
  if ["pkgname", "pkgver", "arch", "size"].all seen.contains = true then .ok metadata
  else .error (.new "package metadata is missing required fields")

end Omapkg.Worker
