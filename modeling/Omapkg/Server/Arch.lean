import Omapkg.Server.Validate
/-!
# Package relations

`src/src/lib/server/arch.ts`: what a package depends on and provides, versions,
their order, and the metadata of a package. Its patterns are over ASCII.
-/

namespace Omapkg.Server.Arch

open Utf

/-! ## Patterns -/

/-- `[h][t]{0,n}` and nothing else. -/
def isWord (h t : Char → Bool) (n : Nat) : List Char → Bool
  | [] => false
  | c :: cs => h c && cs.all t && cs.length ≤ n

/-- `[a-z0-9]`. -/
def isLowerAlnum (c : Char) : Bool := ('a' ≤ c && c ≤ 'z') || ('0' ≤ c && c ≤ '9')

/-- `[a-z0-9@._+-]`. -/
def isNameChar (c : Char) : Bool := isLowerAlnum c || "@._+-".toList.contains c

/-- `[A-Za-z0-9@._+-]`. -/
def isRelationChar (c : Char) : Bool := isAlnum c || "@._+-".toList.contains c

/-- `[A-Za-z0-9@._+%~^:-]`. -/
def isVersionChar (c : Char) : Bool := isAlnum c || "@._+%~^:-".toList.contains c

/-- `[A-Za-z0-9._+~-]`. -/
def isSonameChar (c : Char) : Bool := isAlnum c || "._+~-".toList.contains c

/-- `[A-Za-z0-9._+~^-]`. -/
def isSonameTailChar (c : Char) : Bool := isAlnum c || "._+~^-".toList.contains c

def isDigits (s : List Char) : Bool := s ≠ [] && s.all (·.isDigit)

/-- `ARCH_PACKAGE_NAME`. -/
def isPackageName (s : List Char) : Bool := isWord isLowerAlnum isNameChar 63 s

/-- `ARCH_VERSION`. -/
def isVersionText (s : List Char) : Bool :=
  isWord isAlnum isVersionChar 127 s ||
    match s.span (·.isDigit) with
    | (_ :: _, ':' :: rest) => isWord isAlnum isVersionChar 127 rest
    | _ => false

/-- The name that `ARCH_SONAME_V1` takes. -/
def isSonameV1 (s : List Char) : Bool :=
  match s.reverse with
  | 'o' :: 's' :: '.' :: r => isWord isAlnum isSonameChar 127 r.reverse
  | _ => false

/-- `ARCH_SONAME`. Neither part takes a colon. -/
def isSoname (s : List Char) : Bool :=
  match s.span (· ≠ ':') with
  | (before, _ :: after) => isWord isAlnum isSonameChar 31 before && isWord isAlnum isSonameTailChar 127 after
  | _ => false

/-- What is after the first colon. -/
def afterColon (s : List Char) : List Char := (s.dropWhile (· ≠ ':')).drop 1

/-- `/\.so(?:\.|$)/i` at the start. -/
def startsSo : List Char → Bool
  | '.' :: s :: o :: r => s.toLower = 's' && o.toLower = 'o' && (r = [] || r.head? = some '.')
  | _ => false

/-- `/\.so(?:\.|$)/i`. -/
def hasSo (s : List Char) : Bool := s.tails.any startsSo

/-! ## Versions -/

inductive Operator where
  | ge | le | eq | gt | lt
  deriving DecidableEq, Repr

structure ArchDependency where
  name : String
  operator : Option Operator
  version : Option String
  deriving DecidableEq, Repr

structure PackageVersion where
  epoch : List Char
  pkgver : List Char
  pkgrel : Option (List Char)

/-- `replace(/^0+(?=\d)/, '')` of digits. -/
def stripZeros (digits : List Char) : List Char :=
  match digits.dropWhile (· = '0') with
  | [] => digits.take 1
  | r => r

/-- `/^\d+(?:\.\d+)?$/`. -/
def isRelease (s : List Char) : Bool :=
  match s.span (· ≠ '.') with
  | (a, []) => isDigits a
  | (a, _ :: b) => isDigits a && isDigits b

/-- What is before and after the last hyphen. -/
def splitRelease (s : List Char) : Option (List Char × List Char) :=
  match s.reverse.span (· ≠ '-') with
  | (_, []) => none
  | (after, _ :: before) => some (before.reverse, after.reverse)

def splitEpoch (value : List Char) : List Char × List Char :=
  match value.span (· ≠ ':') with
  | (_, []) => (['0'], value)
  | (epoch, _ :: rest) => (epoch, rest)

def parseArchPackageVersion (value : List Char) : Option PackageVersion :=
  if isVersionText value = false then none
  else
    let (epoch, rest) := splitEpoch value
    if isDigits epoch = false ∨ rest = [] ∨ ':' ∈ rest then none
    else
      match splitRelease rest with
      | some (pkgver, pkgrel) =>
        if pkgver ≠ [] ∧ isRelease pkgrel = true then some ⟨stripZeros epoch, pkgver, some pkgrel⟩
        else some ⟨stripZeros epoch, rest, none⟩
      | none => some ⟨stripZeros epoch, rest, none⟩

/-- What a version's text is compared by. -/
inductive Segment where
  | digits (s : List Char)
  | letters (s : List Char)

/-- The maximal runs of digits and of letters, without what separates them. -/
def segments (s : List Char) : List Segment :=
  (s.splitBy fun a b => a.isDigit = b.isDigit && a.isAlpha = b.isAlpha).filterMap fun run =>
    if run.all (·.isDigit) then some (.digits run) else if run.all (·.isAlpha) then some (.letters run) else none

def compareChars (left right : List Char) : Ordering :=
  if left = right then .eq else if left < right then .lt else .gt

def compareSegments : List Segment → List Segment → Ordering
  | [], [] => .eq
  | [], .digits _ :: _ => .lt
  | [], .letters _ :: _ => .gt
  | .digits _ :: _, [] => .gt
  | .letters _ :: _, [] => .lt
  | .digits _ :: _, .letters _ :: _ => .gt
  | .letters _ :: _, .digits _ :: _ => .lt
  | .digits a :: left, .digits b :: right =>
    ((compare (stripZeros a).length (stripZeros b).length).then (compareChars (stripZeros a) (stripZeros b))).then
      (compareSegments left right)
  | .letters a :: left, .letters b :: right => (compareChars a b).then (compareSegments left right)

/-- Each round of the source's loop compares the next segments. -/
def compareVersionText (left right : List Char) : Ordering := compareSegments (segments left) (segments right)

def compareArchVersions (left right : List Char) : Option Ordering :=
  match parseArchPackageVersion left, parseArchPackageVersion right with
  | some a, some b =>
    some (((compare a.epoch.length b.epoch.length).then (compareChars a.epoch b.epoch)).then
      ((compareVersionText a.pkgver b.pkgver).then
        (match a.pkgrel, b.pkgrel with
          | some r, some r' => compareVersionText r r'
          | _, _ => .eq)))
  | _, _ => none

/-! ## Relations -/

/-- `(>=|<=|=|>|<)(.+)`. -/
def takeOperator : List Char → Option (Operator × List Char)
  | '>' :: '=' :: c :: r => some (.ge, c :: r)
  | '<' :: '=' :: c :: r => some (.le, c :: r)
  | '=' :: c :: r => some (.eq, c :: r)
  | '>' :: c :: r => some (.gt, c :: r)
  | '<' :: c :: r => some (.lt, c :: r)
  | _ => none

def hasSpace (s : String) : Bool := (units s).any isJsSpace

/-- No operator starts with a character of a name, so a name ends where they end. -/
def parseArchDependency (value : String) : Option ArchDependency :=
  if hasSpace value = true then none
  else
    let (name, rest) := value.toList.span isRelationChar
    if isWord isAlnum isRelationChar 63 name = false then none
    else if rest = [] then some ⟨String.ofList name, none, none⟩
    else
      match takeOperator rest with
      | some (operator, version) =>
        if (parseArchPackageVersion version).isSome then
          some ⟨String.ofList name, some operator, some (String.ofList version)⟩
        else none
      | none => none

/-- `ARCH_SONAME_V1`: its name takes no `=`. -/
def parseLegacySoname (value : String) : Option ArchDependency :=
  match value.toList.span (· ≠ '=') with
  | (name, []) => if isSonameV1 name then some ⟨String.ofList name, none, none⟩ else none
  | (name, _ :: version) =>
    if isSonameV1 name && (parseArchPackageVersion version).isSome then
      some ⟨String.ofList name, some .eq, some (String.ofList version)⟩
    else none

def parsePrefixedSoname (value : String) : Option ArchDependency :=
  if isSoname value.toList && hasSo (afterColon value.toList) then some ⟨value, none, none⟩ else none

def parseArchRelation (value : String) : Option ArchDependency :=
  parseArchDependency value <|> parseLegacySoname value <|> parsePrefixedSoname value

def satisfiesArchDependency (dependency : ArchDependency) (version : String) : Bool :=
  match dependency.operator, dependency.version with
  | some operator, some wanted =>
    match compareArchVersions version.toList wanted.toList with
    | none => false
    | some comparison =>
      match operator with
      | .eq => comparison.isEq
      | .gt => comparison.isGT
      | .ge => comparison.isGE
      | .lt => comparison.isLT
      | .le => comparison.isLE
  | _, _ => (compareArchVersions version.toList version.toList).isSome

def satisfiesArchRelation (dependency : ArchDependency) (name fullVersion : String) (provides : List String) : Bool :=
  if dependency.name = name then dependency.operator.isNone || satisfiesArchDependency dependency fullVersion
  else provides.any fun value =>
    match parseArchRelation value with
    | none => false
    | some provided =>
      provided.name = dependency.name &&
        (dependency.operator.isNone ||
          (provided.operator = some .eq && provided.version.any fun version => satisfiesArchDependency dependency version))

/-! ## Metadata -/

structure PackageMetadata where
  name : String
  fullVersion : String
  architecture : Architecture
  installedSize : Nat
  depends : List String
  provides : List String
  conflicts : List String
  replaces : List String
  deriving DecidableEq, Repr

/-- One item of `relationList`. -/
def isRelation (provides allowSoname : Bool) (item : String) : Bool :=
  let unfit := (units item).any fun u => u = 0x0 || u = 0x1F || u = 0x7F
  if item = "" ∨ (units item).length > 256 ∨ unfit = true ∨ hasSpace item = true then false
  else
    match if allowSoname then parseArchRelation item else parseArchDependency item with
    | none => false
    | some relation => !provides || relation.operator.isNone || relation.operator = some .eq

def relationList (provides allowSoname : Bool) (value : List String) : Option (List String) :=
  if value.all (isRelation provides allowSoname) then some value else none

end Omapkg.Server.Arch
