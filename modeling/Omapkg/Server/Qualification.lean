import Omapkg.Lib.Search
import Omapkg.Server.Arch
import Omapkg.Server.OwnedRepository
/-!
# Qualifying a candidate

`src/src/lib/server/cohort-qualification.ts`: the checks of a candidate universe
against its predecessor. A `Map` from keys to lists is the list of its entries,
in the order they came, and what is looked up of it is a filter.
-/

namespace Omapkg.Server.Qualification

open Utf Arch Owned

def maxFindings : Nat := 256

def maxIndexRecords : Nat := 1000000

/-! ## Packages -/

inductive NativeKind where
  | elf | staticArchive | thinArchive | other
  deriving DecidableEq, Repr

inductive TypeAbi where
  | notChecked
  deriving DecidableEq, Repr

structure AbiElf where
  machine : String
  type : String
  bits : Nat
  byteOrder : String
  soname : Option String
  needed : List String
  rpath : List String
  runpath : List String
  interpreter : Option String
  deriving DecidableEq, Repr

structure AbiFile where
  path : String
  sha256 : Option String
  nativeKind : Option NativeKind
  elf : Option AbiElf
  deriving DecidableEq, Repr

structure AbiSymbol where
  path : String
  table : String
  dynamic : Bool
  name : String
  defined : Bool
  binding : String
  type : String
  visibility : String
  size : Nat
  version : Option String
  versionFile : Option String
  versionHidden : Bool
  deriving DecidableEq, Repr

inductive AbiRecord where
  | file (f : AbiFile)
  | symbol (s : AbiSymbol)
  deriving DecidableEq, Repr

structure QualificationAbi where
  inventorySha256 : Option String
  artifactSha256 : String
  typeAbi : TypeAbi
  records : List AbiRecord
  deriving DecidableEq, Repr

structure PackageRelations where
  depends : List String
  provides : List String
  deriving DecidableEq, Repr

inductive Origin where
  | candidate | owned
  deriving DecidableEq, Repr

structure QualificationPackage where
  pkgbase : String
  name : String
  fullVersion : String
  architecture : ArtifactArchitecture
  artifactSha256 : String
  metadata : PackageRelations
  abi : Option QualificationAbi
  origin : Origin
  rebuildOn : List String
  deriving DecidableEq, Repr

def artifactArchitecture : Architecture → ArtifactArchitecture
  | .x86_64 => .x86_64
  | .aarch64 => .aarch64

/-! ## Findings -/

inductive QualificationKind where
  | dependency | abi
  deriving DecidableEq, Repr

structure QualificationFinding where
  kind : QualificationKind
  code : String
  pkgbase : String
  packageName : String
  architecture : Architecture
  relatedPkgbase : Option String
  relation : Option String
  reason : String
  deriving DecidableEq, Repr

/-- A finding, whose architecture is that of the universe. -/
def finding (architecture : Architecture) (kind : QualificationKind) (code : String) (owner : QualificationPackage)
    (reason : String) (related : Option QualificationPackage) (relation : Option String) :
    QualificationFinding :=
  ⟨kind, code, owner.pkgbase, owner.name, architecture, related.map (·.pkgbase), relation, reason⟩

/-- What `pushFinding` does with what is pushed. The flag says that something was left out. -/
def pushFinding (found : List QualificationFinding × Bool) (value : QualificationFinding) :
    List QualificationFinding × Bool :=
  if value ∈ found.1 then found
  else if found.1.length ≥ maxFindings then (found.1, true)
  else (found.1 ++ [value], found.2)

/-! ## What a package has -/

def targetPackage (value : QualificationPackage) (architecture : Architecture) : Bool :=
  value.architecture = .any || value.architecture = artifactArchitecture architecture

def records (item : QualificationPackage) : List AbiRecord := (item.abi.map (·.records)).getD []

def elfFiles (item : QualificationPackage) : List AbiFile :=
  (records item).filterMap fun
    | .file f => if f.nativeKind = some .elf then some f else none
    | .symbol _ => none

def symbols (item : QualificationPackage) : List AbiSymbol :=
  (records item).filterMap fun
    | .file _ => none
    | .symbol s => some s

/-- A file's name for the linker, if it is not empty. -/
def soname (file : AbiFile) : Option String := (file.elf.bind (·.soname)).filter (· ≠ "")

def neededBy (file : AbiFile) : List String := (file.elf.map (·.needed)).getD []

def sonames (item : QualificationPackage) : List String := (elfFiles item).filterMap soname

/-- `/…/i` of a text without case. -/
def hasText (text : String) (s : String) : Bool := (s.toList.map Char.toLower).tails.any (text.toList.isPrefixOf ·)

def isHidden (s : AbiSymbol) : Bool := hasText "hidden" s.visibility || hasText "internal" s.visibility

def dynamicDefined (item : QualificationPackage) : List AbiSymbol :=
  (symbols item).filter fun s => s.dynamic && s.defined && !isHidden s

/-- A copy relocation is a defined symbol of the consumer. -/
def dynamicImported (item : QualificationPackage) : List AbiSymbol :=
  (symbols item).filter fun s => s.dynamic && (!s.defined || s.versionFile.isSome) && !isHidden s

/-- `replace(/^STT_/, '')`. -/
def bareType (type : String) : String :=
  match type.toList with
  | 'S' :: 'T' :: 'T' :: '_' :: r => String.ofList r
  | _ => type

def importedSymbolMatches (imported exported : AbiSymbol) : Bool :=
  imported.name = exported.name &&
    (match imported.version with
      | some version => exported.version = some version
      | none => !(exported.version.isSome && exported.versionHidden)) &&
    (bareType imported.type = "NOTYPE" || bareType imported.type = bareType exported.type) &&
    !(bareType imported.type = "OBJECT" && imported.size > 0 && imported.size ≠ exported.size)

def relationNames (relations : List String) : List String :=
  relations.filterMap fun value => (parseArchRelation value).map (·.name)

def packageIdentityNames (item : QualificationPackage) : List String :=
  item.name :: relationNames item.metadata.provides ++ sonames item

def sameElfClass (left right : Option AbiFile) : Bool :=
  match left.bind (·.elf), right.bind (·.elf) with
  | some l, some r => l.bits = r.bits && l.machine = r.machine
  | _, _ => true

def elfFileForSymbol (item : QualificationPackage) (s : AbiSymbol) : Option AbiFile :=
  (elfFiles item).find? (·.path = s.path)

/-! ## Following needed libraries -/

/-- An entry of the queue: a name, and the class of the file that needs it. -/
structure Needed where
  soname : String
  machine : String
  bits : Nat
  deriving DecidableEq, Repr

def neededEntries (file : AbiFile) : List Needed :=
  match file.elf with
  | some elf => elf.needed.map fun soname => ⟨soname, elf.machine, elf.bits⟩
  | none => []

/-- The file is of the class that is needed. -/
def Needed.sameClass (needed : Needed) (file : AbiFile) : Bool :=
  file.elf.all fun elf => needed.bits = elf.bits && needed.machine = elf.machine

/-- The files that `bySoname` has for an entry. -/
def matchesOf (files : List AbiFile) (needed : Needed) : List AbiFile :=
  files.filter fun file => soname file = some needed.soname && needed.sameClass file

def follow (files : List AbiFile) (needed : Needed) : List Needed := (matchesOf files needed).flatMap neededEntries

/-- A file of one of the owners that are looked for. -/
def isTarget (targetFiles : List AbiFile) (needed : Needed) : Bool := matchesOf targetFiles needed ≠ []

/-- Enough rounds for all entries there are. -/
def followRounds (files : List AbiFile) (queue : List Needed) : Nat :=
  queue.length + ∑ needed ∈ (queue ++ files.flatMap neededEntries).toFinset, (follow files needed).length

/-- The files of the universe, and those of the provider and of its predecessor, which are added to them. -/
def providerNeededByConsumer (consumer provider : QualificationPackage) (universe' : List QualificationPackage)
    (previous : Option QualificationPackage) : Bool :=
  let targetFiles := elfFiles provider ++ (previous.map elfFiles).getD []
  if targetFiles.filterMap soname = [] then false
  else if elfFiles consumer = [] then
    (relationNames consumer.metadata.depends).any (packageIdentityNames provider).contains
  else
    let files := universe'.flatMap elfFiles ++ targetFiles
    let queue := (elfFiles consumer).flatMap neededEntries
    Search.search (follow files) (isTarget targetFiles) (followRounds files queue) queue []

/-! ## Imported symbols -/

def isWeak (s : AbiSymbol) : Bool := hasText "weak" s.binding

/-- Some symbol of the package is what is imported. -/
def exportsSymbol (item : QualificationPackage) (consumerFile : Option AbiFile) (imported : AbiSymbol) : Bool :=
  ((dynamicDefined item).filter (·.name = imported.name)).any fun exported =>
    sameElfClass consumerFile (elfFileForSymbol item exported) && importedSymbolMatches imported exported

/-- The symbol is imported of the provider, which does not export it. -/
def isUnresolved (provider consumer : QualificationPackage) (previous : Option QualificationPackage)
    (imported : AbiSymbol) : Bool :=
  let consumerFile := elfFileForSymbol consumer imported
  let providerFiles := elfFiles provider ++ (previous.map elfFiles).getD []
  !isWeak imported &&
    imported.versionFile.all (fun versionFile => providerFiles.any fun file =>
      (file.elf.bind (·.soname)) = some versionFile && sameElfClass consumerFile (some file)) &&
    !(imported.version.isNone && previous.any fun old => !exportsSymbol old consumerFile imported) &&
    !exportsSymbol provider consumerFile imported

def unresolvedImportedSymbols (provider consumer : QualificationPackage) (previous : Option QualificationPackage)
    (universe' : List QualificationPackage) : List AbiSymbol :=
  if providerNeededByConsumer consumer provider universe' previous then
    (dynamicImported consumer).filter (isUnresolved provider consumer previous)
  else []

/-! ## Consumers -/

/-- The packages to look at when a name changes, by what names them. -/
structure ReverseIndex where
  capability : List (String × QualificationPackage)
  soname : List (String × QualificationPackage)
  identity : List (String × QualificationPackage)

def reverseIndex (packages : List QualificationPackage) (architecture : Architecture) : ReverseIndex :=
  let items := packages.filter (targetPackage · architecture)
  { capability := items.flatMap fun item => (relationNames item.metadata.depends).map (·, item)
    soname := items.flatMap fun item => ((elfFiles item).flatMap neededBy).map (·, item)
    identity := items.flatMap fun item => item.rebuildOn.map (·, item) }

def lookup (entries : List (String × QualificationPackage)) (name : String) : List QualificationPackage :=
  (entries.filter (·.1 = name)).map (·.2)

def reverseConsumers (index : ReverseIndex) (provider : QualificationPackage) (baseline : Option QualificationPackage) :
    List QualificationPackage :=
  let names := packageIdentityNames provider ++ (baseline.map packageIdentityNames).getD (packageIdentityNames provider)
  let consumers := names.flatMap (lookup index.capability) ++ names.flatMap (lookup index.soname) ++
    [provider.pkgbase, provider.name].flatMap (lookup index.identity)
  consumers.eraseDups.filter (·.name ≠ provider.name)

/-! ## What changed -/

/-- The order of `sort()`. -/
def textLE (a b : String) : Bool := (units a).map (·.toNat) ≤ (units b).map (·.toNat)

def recordKey (s : AbiSymbol) : String × String × Bool × String × String × String :=
  (s.path, s.table, s.dynamic, s.name, s.version.getD "", s.versionFile.getD "")

/-- The values of a `Map`: the last of each key, where its first was. -/
def lastByKey (found : List AbiSymbol) : List AbiSymbol → List AbiSymbol
  | [] => found
  | s :: rest =>
    lastByKey
      (if found.any (recordKey · = recordKey s) then found.map fun old => if recordKey old = recordKey s then s else old
        else found ++ [s]) rest

structure AbiDiff where
  removedSonames : List String
  changedSymbols : List String
  changedStatic : Bool
  changedElf : Bool

def versionedName (s : AbiSymbol) : String :=
  match s.version.filter (· ≠ "") with
  | some version => s!"{s.name}@{version}"
  | none => s.name

def staticHashes (item : QualificationPackage) : List String :=
  ((records item).filterMap fun
    | .file f =>
      if f.nativeKind = some .staticArchive ∨ f.nativeKind = some .thinArchive then some (f.path ++ ":" ++ f.sha256.getD "")
      else none
    | .symbol _ => none).insertionSort fun a b => textLE a b = true

/-- What identifies an object file, each part as `join` writes it. -/
def elfIdentity (item : QualificationPackage) : List (List String) :=
  ((elfFiles item).map fun f =>
    [f.path] ++ (f.elf.map fun elf =>
      [elf.machine, elf.type, toString elf.bits, elf.byteOrder, elf.interpreter.getD ""] ++ elf.rpath ++ elf.runpath).getD
        ["", "", "", "", ""]).insertionSort
    fun a b => textLE (",".intercalate a) (",".intercalate b) = true

def abiDiff (baseline candidate : QualificationPackage) : AbiDiff :=
  let oldSymbols := lastByKey [] (dynamicDefined baseline)
  let newSymbols := lastByKey [] (dynamicDefined candidate)
  { removedSonames := ((sonames baseline).eraseDups.filter fun name => !(sonames candidate).contains name).insertionSort
      fun a b => textLE a b = true
    changedSymbols := ((oldSymbols.filter fun old =>
        match newSymbols.find? fun s => s.path = old.path && s.name = old.name with
        | none => true
        | some s => s.type ≠ old.type || s.size ≠ old.size || s.version ≠ old.version || s.versionFile ≠ old.versionFile).map
      versionedName).insertionSort fun a b => textLE a b = true
    changedStatic := staticHashes baseline ≠ staticHashes candidate
    changedElf := elfIdentity baseline ≠ elfIdentity candidate }

/-! ## The candidate universe -/

structure QualificationInput where
  cohortId : String
  revision : Nat
  manifestSha256 : String
  architecture : Architecture
  candidate : List QualificationPackage
  baseline : List QualificationPackage

structure QualificationReport where
  cohortId : String
  revision : Nat
  manifestSha256 : String
  architecture : Architecture
  packageCount : Nat
  candidatePackageCount : Nat
  findings : List QualificationFinding
  truncated : Bool

/-- The packages of the target, which have one key for each name. -/
def QualificationInput.candidates (input : QualificationInput) : List QualificationPackage :=
  input.candidate.filter (targetPackage · input.architecture)

/-- `baselineByName`, which takes the last package of a name. -/
def QualificationInput.previous (input : QualificationInput) (item : QualificationPackage) : Option QualificationPackage :=
  (input.baseline.filter (targetPackage · input.architecture)).reverse.find? (·.name = item.name)

/-- Names that an earlier package has. -/
def duplicateFindings (architecture : Architecture) (earlier : List QualificationPackage) :
    List QualificationPackage → List QualificationFinding
  | [] => []
  | item :: rest =>
    match earlier.find? (·.name = item.name) with
    | some previous =>
      finding architecture .dependency "duplicate-package-authority" item
        s!"Final universe contains more than one authority for {item.name}." (some previous) none ::
        duplicateFindings architecture earlier rest
    | none => duplicateFindings architecture (earlier ++ [item]) rest

/-- `byCapability`. -/
def capabilities (candidate : List QualificationPackage) : List (String × QualificationPackage) :=
  candidate.flatMap fun item => (relationNames (item.name :: item.metadata.provides)).map (·, item)

/-- The packages that satisfy a dependency. -/
def providersOf (architecture : Architecture) (candidate : List QualificationPackage) (dependency : ArchDependency) :
    List QualificationPackage :=
  (lookup (capabilities candidate) dependency.name).filter fun item =>
    targetPackage item architecture &&
      satisfiesArchRelation dependency item.name item.fullVersion item.metadata.provides

def isSatisfied (architecture : Architecture) (candidate : List QualificationPackage) (relation : String) : Bool :=
  match parseArchRelation relation with
  | none => false
  | some dependency => providersOf architecture candidate dependency ≠ []

def dependencyFindings (architecture : Architecture) (candidate : List QualificationPackage) : List QualificationFinding :=
  candidate.flatMap fun owner =>
    (owner.metadata.depends.filter fun relation => !isSatisfied architecture candidate relation).map fun relation =>
      finding architecture .dependency "unresolved-dependency" owner
        s!"No owned final-universe provider satisfies {relation}." none (some relation)

def elfFindings (architecture : Architecture) (candidate : List QualificationPackage) : List QualificationFinding :=
  candidate.flatMap fun owner =>
    (if owner.abi.isNone ∧ owner.origin = .candidate ∧ owner.architecture ≠ .any then
      [finding architecture .abi "abi-coverage" owner "Native candidate output has no retained ABI inventory." none none]
    else []) ++
    (((elfFiles owner).flatMap neededBy).filter fun needed => !(candidate.flatMap sonames).contains needed).map fun needed =>
      finding architecture .abi "unresolved-elf-needed" owner s!"ELF dependency {needed} has no exact SONAME provider." none
        (some needed)

/-- What is found of a consumer of a changed provider. -/
def consumerFindings (architecture : Architecture) (candidate : List QualificationPackage)
    (provider oldProvider consumer : QualificationPackage) : List QualificationFinding :=
  (if consumer.abi.isNone ∧ consumer.architecture ≠ .any then
    [finding architecture .abi "abi-coverage" consumer
      s!"Reverse consumer of changed provider {provider.name} lacks ABI inventory." (some provider) none]
  else []) ++
  if consumer.origin ≠ .candidate then
    [finding architecture .abi "reverse-rebuild-required" provider
      s!"Changed provider {provider.name} requires rebuilding consumer {consumer.name}; stable SONAME is not a compatibility proof."
      (some consumer) none]
  else if consumer.abi.isSome then
    (unresolvedImportedSymbols provider consumer (some oldProvider) candidate).map fun imported =>
      finding architecture .abi "imported-symbol-unresolved" consumer
        s!"Consumer {consumer.name} imports {versionedName imported}, which the final provider {provider.name} does not export with matching version/type semantics."
        (some provider) none
  else []

/-- What is found where nothing consumes a changed provider. -/
def aloneFindings (architecture : Architecture) (provider oldProvider : QualificationPackage) (abi : QualificationAbi)
    (diff : AbiDiff) : List QualificationFinding :=
  (if diff.changedStatic then
    [finding architecture .abi "static-rebuild-unknown" provider
      s!"Static archive {provider.name} changed without a measured reverse-consumer closure." none none]
  else []) ++
  (if abi.typeAbi = .notChecked ∧ dynamicDefined provider ≠ [] then
    [finding architecture .abi "reverse-rebuild-unknown" provider
      s!"Provider {provider.name} has native symbols but no measured reverse-consumer closure; unknown C/C++ ABI requires conservative rebuild scope." none none]
  else []) ++
  (if diff.changedSymbols ≠ [] ∧ oldProvider.abi.isNone then
    [finding architecture .abi "abi-baseline-unknown" provider
      s!"Provider {provider.name} changed but its previous ABI inventory is unavailable." none none]
  else [])

def diffOf (oldProvider provider : QualificationPackage) : AbiDiff :=
  if oldProvider.abi.isSome then abiDiff oldProvider provider else ⟨[], ["unknown baseline ABI"], false, true⟩

def providerFindings (input : QualificationInput) (provider : QualificationPackage) : List QualificationFinding :=
  match input.previous provider with
  | none => []
  | some oldProvider =>
    if oldProvider.artifactSha256 = provider.artifactSha256 then []
    else
      match provider.abi with
      | none =>
        [finding input.architecture .abi "abi-coverage" provider "Changed candidate provider has no retained ABI inventory."
          none none]
      | some abi =>
        let diff := diffOf oldProvider provider
        let consumers := reverseConsumers (reverseIndex input.candidates input.architecture) provider (some oldProvider)
        if diff.removedSonames ≠ [] ∨ diff.changedSymbols ≠ [] ∨ diff.changedStatic = true ∨ diff.changedElf = true ∨
            abi.typeAbi = .notChecked then
          consumers.flatMap (consumerFindings input.architecture input.candidates provider oldProvider) ++
            (if consumers = [] then aloneFindings input.architecture provider oldProvider abi diff else [])
        else []

/-- All that is found, before what is pushed twice is dropped. -/
def allFindings (input : QualificationInput) : List QualificationFinding :=
  duplicateFindings input.architecture [] input.candidates ++ dependencyFindings input.architecture input.candidates ++
    elfFindings input.architecture input.candidates ++ input.candidates.flatMap (providerFindings input)

def qualifyCandidateUniverse (input : QualificationInput) : QualificationReport :=
  let found := (allFindings input).foldl pushFinding ([], false)
  { cohortId := input.cohortId
    revision := input.revision
    manifestSha256 := input.manifestSha256
    architecture := input.architecture
    packageCount := input.candidates.length
    candidatePackageCount := (input.candidates.filter (·.origin = .candidate)).length
    findings := found.1
    truncated := found.2 }

end Omapkg.Server.Qualification
