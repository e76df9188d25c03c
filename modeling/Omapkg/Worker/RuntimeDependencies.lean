import Omapkg.Worker.DependencyBlockers
/-!
# Installed packages

`src/worker/runtime_dependencies.go`: the packages that are installed in a root,
what they provide, and the closure of relations over them. Versions are compared
by `/usr/bin/vercmp`, whose answers are kept.
-/

namespace Omapkg.Worker

open Utf Omapkg.Client Omapkg.Server
open Omapkg.Server.Arch (isPackageName isVersionText)

/-! ## Files of the database -/

/-- `splitAt` of bytes: what stands between line breaks. A break at the end starts no line. -/
def scanLines : Bytes → List Bytes
  | [] => []
  | b :: bs =>
    if b = 10 then [] :: scanLines bs
    else
      match scanLines bs with
      | [] => [[b]]
      | line :: lines => (b :: line) :: lines

/-- `bufio.ScanLines` takes a carriage return before the break. -/
def dropReturn (line : Bytes) : Bytes := if line.getLast? = some 13 then line.dropLast else line

def maxScanToken : Nat := 64 * 1024

/-- `utf8.ValidString`. -/
def validText (bs : Bytes) : Bool := encode (decode bs) = bs

/-- `analysisText` of bytes. -/
def analysisBytes (bs : Bytes) (limit : Nat) : Bool :=
  bs.length ≤ limit && validText bs && (decode bs).all fun c => 32 ≤ c.toNat && c.toNat ≠ 127

/-- `^[A-Z0-9_]+$`. -/
def isPacmanField (name : List Char) : Bool :=
  name ≠ [] && name.all fun c => ('A' ≤ c && c ≤ 'Z') || c.isDigit || c = '_'

abbrev PacmanFields := List (List Char × List String)

def fieldLines (fields : PacmanFields) (name : String) : List String := (fields.lookup name.toList).getD []

def addFieldLine (name : List Char) (line : String) : PacmanFields → PacmanFields
  | [] => []
  | field :: fields =>
    if field.1 = name then (field.1, field.2 ++ [line]) :: fields else field :: addFieldLine name line fields

/-- The section that is open, the bytes read, and the fields. -/
structure FieldScan where
  opened : List Char
  size : Nat
  fields : PacmanFields

def scanField (limit : Nat) (s : FieldScan) (line : Bytes) : Except GoError FieldScan :=
  let size := s.size + line.length + 1
  if limit < size ∨ analysisBytes (line.filter (· ≠ 9)) (64 * 1024) = false then
    .error (.new "installed package metadata exceeds limit")
  else
    let text := decode line
    if s.opened = [] ∧ text.head? = some '%' ∧ text.getLast? = some '%' then
      let name := text.tail.dropLast
      -- the slice of a lone `%` has no bounds
      if text.length = 1 then .error (.new "slice bounds out of range")
      else if isPacmanField name = false then .error (.new "invalid installed package metadata field")
      else if (s.fields.lookup name).isSome then .error (.new "duplicate installed package field")
      else .ok ⟨name, size, s.fields ++ [(name, [])]⟩
    else if text = [] then .ok ⟨[], size, s.fields⟩
    else if s.opened = [] then .error (.new "invalid installed package metadata")
    else .ok ⟨s.opened, size, addFieldLine s.opened (String.ofList text) s.fields⟩

/-- Lines up to one that does not fit into the scanner's buffer. -/
def scanPacmanFields (source : Bytes) (limit : Nat) : Except GoError PacmanFields := do
  let lines := scanLines (source.take (limit + 1))
  let fits := lines.takeWhile fun line => line.length < maxScanToken
  let scan ← (fits.map dropReturn).foldlM (scanField limit) ⟨[], 0, []⟩
  if fits.length < lines.length then .error (.new "bufio.Scanner: token too long") else .ok scan.fields

/-! ## Packages -/

structure InstalledPackage where
  name : String
  version : String
  depends : List String
  provides : List String
  deriving DecidableEq

/-- A directory of the database, with its two files; `none` is one that cannot be read. -/
structure DatabaseEntry where
  isDir : Bool
  desc : Option Bytes
  files : Option Bytes

/-- The name, the operator and the version of a relation. -/
def dependencyParts (relation : String) : String × String × String :=
  match relation.toList.span fun c => !isOperatorChar c with
  | (_, []) => (relation, "", "")
  | (name, c :: '=' :: version) => (String.ofList name, String.ofList [c, '='], String.ofList version)
  | (name, c :: version) => (String.ofList name, String.ofList [c], String.ofList version)

/-- `packages` in the order of the database; `providers` has a package under its own name
and under every other name that it provides. -/
structure RuntimePackages where
  packages : List InstalledPackage
  providers : List (String × InstalledPackage)
  paths : Nat
  deriving DecidableEq

def RuntimePackages.empty : RuntimePackages := ⟨[], [], 0⟩

/-- `packages.providers[name]`. -/
def RuntimePackages.providersOf (packages : RuntimePackages) (name : String) : List InstalledPackage :=
  packages.providers.filterMap fun provider => if provider.1 = name then some provider.2 else none

def providerNames (pkg : InstalledPackage) : List String :=
  pkg.name :: (pkg.provides.map fun relation => (dependencyParts relation).1).filter (· ≠ pkg.name)

/-- `filepath.Clean` of a relative path, by its components. -/
def cleanComponents (path : List Char) : List (List Char) :=
  (splitAt '/' path).foldl (fun (stack : List (List Char)) part =>
    if part = [] ∨ part = ['.'] then stack
    else if part = ['.', '.'] ∧ stack.head?.any (· ≠ ['.', '.']) = true then stack.tail
    else part :: stack) [] |>.reverse

/-- A path of the inventory: neither absolute nor above the root. -/
def safeOwnedPath (name : String) : Bool :=
  name.toList.head? ≠ some '/' &&
    !((cleanComponents name.toList).head? = some ['.', '.'] && 1 < (cleanComponents name.toList).length)

def checkFiles (paths : Nat) (names : List String) : Except GoError Nat :=
  names.foldlM (fun paths name =>
    if 2000000 < paths + 1 ∨ analysisBytes (encode name.toList) 4096 = false ∨ safeOwnedPath name = false then
      .error (.new "installed file ownership exceeds limit or contains unsafe paths")
    else .ok (paths + 1)) paths

def checkRelations (relations : List String) : Except GoError Unit :=
  relations.forM fun relation => (parsePackageRelation relation.toList false true).map fun _ => ()

def readPacmanFields (file : Option Bytes) (limit : Nat) : Except GoError PacmanFields :=
  match file with
  | none => .error (.new "no such file or directory")
  | some source => scanPacmanFields source limit

/-- The package that a `desc` describes. -/
def installedPackage (fields : PacmanFields) : Except GoError InstalledPackage :=
  match fieldLines fields "NAME", fieldLines fields "VERSION" with
  | [name], [version] =>
    if isPackageName name.toList = false ∨ validArchVersion version.toList = false then
      .error (.new "invalid installed package identity")
    else .ok ⟨name, version, fieldLines fields "DEPENDS", fieldLines fields "PROVIDES"⟩
  | _, _ => .error (.new "invalid installed package identity")

def addInstalled (packages : RuntimePackages) (entry : DatabaseEntry) : Except GoError RuntimePackages := do
  if entry.isDir = false then .ok packages
  else if 4096 ≤ packages.packages.length then
    .error (.new "installed package inventory exceeds 4096 packages")
  else
    let fields ← readPacmanFields entry.desc (2 ^ 20)
    let pkg ← installedPackage fields
    if packages.packages.any (·.name = pkg.name) = true then .error (.new "duplicate installed package identity")
    else
      checkRelations (pkg.depends ++ pkg.provides)
      let files ← readPacmanFields entry.files (32 * 2 ^ 20)
      let paths ← checkFiles packages.paths (fieldLines files "FILES")
      .ok ⟨packages.packages ++ [pkg], packages.providers ++ (providerNames pkg).map fun name => (name, pkg), paths⟩

/-- `none` is a directory that cannot be listed. -/
def installedRuntimePackages (entries : Option (List DatabaseEntry)) : Except GoError RuntimePackages :=
  match entries with
  | none => .error (.new "no such file or directory")
  | some entries => do
    let packages ← entries.foldlM addInstalled .empty
    if packages.packages = [] then .error (.new "installed runtime package inventory is empty") else .ok packages

/-! ## Satisfaction -/

/-- What `/usr/bin/vercmp` prints for two versions. -/
abbrev Vercmp := String → String → Except GoError (List Char)

def nativeComparison (vercmp : Vercmp) (version wanted : String) : Except GoError Int :=
  match vercmp version wanted with
  | .error cause => .error (.wrap "native version comparison failed" cause)
  | .ok output =>
    match parseInt (trimSpace output) with
    | none => .error (.new "invalid native version comparison")
    | some comparison =>
      if comparison < -1 ∨ 1 < comparison then .error (.new "invalid native version comparison") else .ok comparison

/-- The answers that are kept, by their versions. -/
abbrev Comparisons := List (String × Int)

def comparisonKey (version wanted : String) : String := version ++ "\n" ++ wanted

def compareKept (vercmp : Vercmp) (version wanted : String) (comparisons : Comparisons) :
    Except GoError (Int × Comparisons) :=
  match comparisons.lookup (comparisonKey version wanted) with
  | some comparison => .ok (comparison, comparisons)
  | none =>
    if version = wanted then .ok (0, comparisons)
    else
      (nativeComparison vercmp version wanted).map fun comparison =>
        (comparison, (comparisonKey version wanted, comparison) :: comparisons)

def operatorHolds (operator : String) (comparison : Int) : Bool :=
  (operator = "=" && comparison = 0) || (operator = ">" && 0 < comparison) || (operator = "<" && comparison < 0) ||
    (operator = ">=" && 0 ≤ comparison) || (operator = "<=" && comparison ≤ 0)

/-- The versions at which a package has a name; one that is not given is empty. -/
def availableVersions (pkg : InstalledPackage) (name : String) : List String :=
  (if name = pkg.name then [pkg.version] else []) ++ pkg.provides.filterMap fun provided =>
    if (dependencyParts provided).1 = name then some (dependencyParts provided).2.2 else none

def satisfiesAny (vercmp : Vercmp) (operator wanted : String) : List String → Comparisons →
    Except GoError (Bool × Comparisons)
  | [], comparisons => .ok (false, comparisons)
  | version :: available, comparisons =>
    if operator = "" then .ok (true, comparisons)
    else if version = "" then satisfiesAny vercmp operator wanted available comparisons
    else
      match compareKept vercmp version wanted comparisons with
      | .error e => .error e
      | .ok (comparison, comparisons) =>
        if operatorHolds operator comparison = true then .ok (true, comparisons)
        else satisfiesAny vercmp operator wanted available comparisons

def satisfies (vercmp : Vercmp) (pkg : InstalledPackage) (relation : String) (comparisons : Comparisons) :
    Except GoError (Bool × Comparisons) :=
  let (name, operator, wanted) := dependencyParts relation
  satisfiesAny vercmp operator wanted (availableVersions pkg name) comparisons

/-! ## Closure -/

/-- What one relation of the queue is given, and what it leaves. -/
structure Following where
  result : List String
  queue : List String
  found : Bool
  comparisons : Comparisons

/-- One relation against its providers: those that satisfy it join, with what they depend on. -/
def follow (vercmp : Vercmp) (relation : String) : List InstalledPackage → Following → Except GoError Following
  | [], s => .ok s
  | pkg :: providers, s =>
    match satisfies vercmp pkg relation s.comparisons with
    | .error e => .error e
    | .ok (false, comparisons) => follow vercmp relation providers { s with comparisons }
    | .ok (true, comparisons) =>
      if pkg.name ∈ s.result then follow vercmp relation providers { s with found := true, comparisons }
      else
        follow vercmp relation providers
          ⟨s.result ++ [pkg.name], s.queue ++ pkg.depends, true, comparisons⟩

/-- The providers that are not among the result. -/
def absent (packages : RuntimePackages) (result : List String) : Nat :=
  (packages.providers.filter fun provider => provider.2.name ∉ result).length

theorem absent_append_lt {packages : RuntimePackages} {result : List String} {provider : String × InstalledPackage}
    (hp : provider ∈ packages.providers) (hn : provider.2.name ∉ result) :
    absent packages (result ++ [provider.2.name]) < absent packages result := by
  unfold absent
  rw [← List.countP_eq_length_filter, ← List.countP_eq_length_filter]
  have hle : ∀ q ∈ packages.providers, decide (q.2.name ∉ result ++ [provider.2.name]) = true →
      decide (q.2.name ∉ result) = true := by
    intro q _ hq
    simp only [decide_eq_true_eq, List.mem_append, not_or] at hq ⊢
    exact hq.1
  obtain ⟨before, after, heq⟩ := List.append_of_mem hp
  rw [heq]
  rw [heq] at hle
  have hbefore := List.countP_mono_left fun q hq => hle q (List.mem_append_left _ hq)
  have hafter := List.countP_mono_left fun q hq => hle q (List.mem_append_right _ (List.mem_cons_of_mem _ hq))
  simp only [List.countP_append, List.countP_cons, List.mem_append, List.mem_singleton, or_true, not_true,
    decide_false, hn, not_false_iff, decide_true, if_true] at hbefore hafter ⊢
  simp only [Bool.false_eq_true, if_false] at hbefore hafter ⊢
  omega

/-- A relation either queues nothing, or takes a provider out of the absent ones. -/
theorem follow_decreases {packages : RuntimePackages} {vercmp : Vercmp} {relation : String}
    {providers : List InstalledPackage} (hp : ∀ pkg ∈ providers, ∃ name, (name, pkg) ∈ packages.providers)
    {s s' : Following} (h : follow vercmp relation providers s = .ok s') :
    absent packages s'.result < absent packages s.result ∨ s'.result = s.result ∧ s'.queue = s.queue := by
  induction providers generalizing s with
  | nil =>
    cases h
    exact .inr ⟨rfl, rfl⟩
  | cons pkg providers ih =>
    rw [List.forall_mem_cons] at hp
    rw [follow] at h
    split at h
    · cases h
    · have hrest := ih hp.2 h
      exact hrest
    · split at h
      · have hrest := ih hp.2 h
        exact hrest
      · rename_i hn
        obtain ⟨name, hmem⟩ := hp.1
        have hlt : absent packages (s.result ++ [pkg.name]) < absent packages s.result :=
          absent_append_lt hmem hn
        rcases ih hp.2 h with hless | ⟨hresult, -⟩
        · exact .inl (hless.trans hlt)
        · exact .inl (hresult ▸ hlt)

theorem mem_providersOf {packages : RuntimePackages} {name : String} {pkg : InstalledPackage} :
    pkg ∈ packages.providersOf name ↔ (name, pkg) ∈ packages.providers := by
  unfold RuntimePackages.providersOf
  rw [List.mem_filterMap]
  constructor
  · rintro ⟨⟨name', pkg'⟩, hmem, h⟩
    split at h
    · rename_i hname
      cases h
      exact hname ▸ hmem
    · cases h
  · exact fun h => ⟨_, h, if_pos rfl⟩

/-- The result, what is missing, and the comparisons that are kept. -/
def closureFrom (vercmp : Vercmp) (packages : RuntimePackages) (result seen missing queue : List String)
    (comparisons : Comparisons) : Except GoError (List String × List String × Comparisons) :=
  match queue with
  | [] => .ok (result, missing, comparisons)
  | relation :: queue =>
    if relation ∈ seen then closureFrom vercmp packages result seen missing queue comparisons
    else
      match _h : follow vercmp relation (packages.providersOf (dependencyParts relation).1)
          ⟨result, queue, false, comparisons⟩ with
      | .error e => .error e
      | .ok s =>
        closureFrom vercmp packages s.result (relation :: seen) (if s.found then missing else missing ++ [relation])
          s.queue s.comparisons
termination_by (absent packages result, queue.length)
decreasing_by
  · exact Prod.Lex.right _ (Nat.lt_succ_self _)
  · have hfollow : absent packages s.result < absent packages result ∨ s.result = result ∧ s.queue = queue :=
      follow_decreases (fun pkg hpkg => ⟨_, mem_providersOf.mp hpkg⟩) _h
    rcases hfollow with hless | ⟨hresult, hqueue⟩
    · exact Prod.Lex.left _ _ hless
    · rw [hresult, hqueue]
      exact Prod.Lex.right _ (Nat.lt_succ_self _)

/-- Every package that the relations need, by name, and the relations that none satisfies. -/
def closure (vercmp : Vercmp) (packages : RuntimePackages) (relations : List String) (comparisons : Comparisons) :
    Except GoError (List String × List String × Comparisons) :=
  closureFrom vercmp packages [] [] [] relations comparisons

end Omapkg.Worker
