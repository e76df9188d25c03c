import Omapkg.Server.Arch
import Omapkg.Server.CanonicalJson
/-!
# Rebuild plans

`src/src/lib/rebuild-plan.ts`: which package bases to rebuild when some change.
The packages of two snapshots and the catalog's rules make a graph of who is
built with whom; what the changed bases reach against its edges is rebuilt, in
groups that can be built one after the other. A `Set` is a list that has each
element once, and a `Map` of sets the list of its pairs.
-/

namespace Omapkg.Server.Rebuild

open Utf Arch

/-! ## Packages -/

/-- The part of an `ImportEntry` that a plan looks at. -/
structure Package where
  name : String
  pkgbase : String
  version : String
  target : Architecture
  dependencies : List String
  makeDependencies : List String
  checkDependencies : List String
  provides : List String
  deriving DecidableEq

structure RebuildRule where
  pkgbase : String
  rebuildOn : List String

inductive Snapshot where
  | baseline | candidate
  deriving DecidableEq

def Snapshot.text : Snapshot → String
  | .baseline => "baseline"
  | .candidate => "candidate"

structure RebuildFinding where
  snapshot : Snapshot
  pkgbase : String
  output : String
  relation : String
  providers : List String
  deriving DecidableEq

/-- `sort()`, by code units. -/
def UnitsLE (a b : String) : Prop := KeyLE (units a) (units b)

instance : DecidableRel UnitsLE := fun _ _ => inferInstanceAs (Decidable (KeyLE _ _))

def sorted (names : List String) : List String := names.insertionSort UnitsLE

/-! ## The graph -/

def maxEdges : Nat := 2000000

def maxRelations : Nat := 2000000

/-- What is known of the packages. `reverse` has a provider before its consumer,
and `dependencies`, of the candidate, a consumer before its provider; `edgeCount`
is the length of `reverse`. -/
structure Graph where
  allBases : List String
  currentBases : List String
  outputBases : List (String × String)
  reverse : List (String × String)
  dependencies : List (String × String)
  findings : List RebuildFinding
  relationCount : Nat

def Graph.empty : Graph := ⟨[], [], [], [], [], [], 0⟩

/-- Split outputs are built as one package base. -/
def edge (current : Bool) (consumer : String) (g : Graph) (provider : String) : Except String Graph :=
  if consumer = provider then .ok g
  else if (provider, consumer) ∉ g.reverse ∧ g.reverse.length + 1 > maxEdges then
    .error "Rebuild graph exceeds its two-million-edge budget."
  else .ok { g with
    reverse := g.reverse.insert (provider, consumer)
    dependencies := if current then g.dependencies.insert (consumer, provider) else g.dependencies }

/-! ## Snapshots -/

def addCapability (entry : Package) (names : List String) (value : String) : Except String (List String) :=
  match parseArchRelation value with
  | none => .error s!"Invalid provided relation for {entry.name}: {value}"
  | some relation =>
    if relation.operator.isSome = true ∧ relation.operator ≠ some .eq then
      .error s!"Invalid provided relation for {entry.name}: {value}"
    else .ok (names.insert relation.name)

/-- What a package provides, and its own name. -/
def capabilities (entry : Package) : Except String (List String) := entry.provides.foldlM (addCapability entry) [entry.name]

def countCapability (entry : Package) (s : Graph × List (String × Package)) (name : String) :
    Except String (Graph × List (String × Package)) :=
  if s.1.relationCount + 1 > maxRelations then .error "Rebuild graph exceeds its dependency metadata budget."
  else .ok ({ s.1 with relationCount := s.1.relationCount + 1 }, s.2 ++ [(name, entry)])

def Graph.addBase (g : Graph) (snapshot : Snapshot) (entry : Package) : Graph :=
  { g with
    allBases := g.allBases.insert entry.pkgbase
    currentBases := if snapshot = .candidate then g.currentBases.insert entry.pkgbase else g.currentBases
    outputBases := g.outputBases.insert (entry.name, entry.pkgbase) }

/-- The packages by what they provide. -/
def addPackage (snapshot : Snapshot) (s : Graph × List (String × Package)) (entry : Package) :
    Except String (Graph × List (String × Package)) := do
  let names ← capabilities entry
  names.foldlM (countCapability entry) (s.1.addBase snapshot entry, s.2)

def relations (entry : Package) : List String :=
  sorted (entry.dependencies ++ entry.makeDependencies ++ entry.checkDependencies).eraseDups

/-- The packages that satisfy a relation. -/
def matching (providers : List (String × Package)) (relation : ArchDependency) : List Package :=
  ((providers.filter (·.1 = relation.name)).map (·.2)).filter fun provider =>
    satisfiesArchRelation relation provider.name provider.version provider.provides

def Graph.note (g : Graph) (snapshot : Snapshot) (entry : Package) (value : String) (found : List Package) : Graph :=
  let names := sorted (found.map (·.name))
  if names.length ≠ 1 then { g with findings := g.findings ++ [⟨snapshot, entry.pkgbase, entry.name, value, names⟩] } else g

def addRelation (snapshot : Snapshot) (providers : List (String × Package)) (entry : Package) (g : Graph) (value : String) :
    Except String Graph :=
  match parseArchRelation value with
  | none => .error s!"Invalid dependency for {entry.name}: {value}"
  | some relation =>
    let found := matching providers relation
    (found.map (·.pkgbase)).foldlM (edge (decide (snapshot = .candidate)) entry.pkgbase) (g.note snapshot entry value found)

def addRelations (snapshot : Snapshot) (providers : List (String × Package)) (g : Graph) (entry : Package) :
    Except String Graph :=
  let count := g.relationCount + (relations entry).length
  if (relations entry).length > 6144 ∨ count > maxRelations then
    .error "Rebuild graph exceeds its dependency metadata budget."
  else (relations entry).foldlM (addRelation snapshot providers entry) { g with relationCount := count }

/-- The packages of a snapshot for the target. -/
def ofTarget (architecture : Architecture) (entries : List Package) : List Package :=
  entries.filter fun entry => entry.target = architecture

def addSnapshot (architecture : Architecture) (g : Graph) (snapshot : Snapshot) (entries : List Package) :
    Except String Graph :=
  if entries.length > 100000 then .error "Rebuild inventory exceeds 100,000 package records."
  else
    let packages := ofTarget architecture entries
    if ¬(packages.map (·.name)).Nodup then .error "Resolve duplicate package authorities before planning rebuilds."
    else do
      let s ← packages.foldlM (addPackage snapshot) (g, [])
      packages.foldlM (addRelations snapshot s.2) s.1

/-! ## Rules -/

/-- The bases that a trigger names: those of an output, and a base itself. -/
def triggered (g : Graph) (trigger : String) : List String :=
  let bases := (g.outputBases.filter (·.1 = trigger)).map (·.2)
  if trigger ∈ g.allBases then bases.insert trigger else bases

def ruleEdge (consumer : String) (g : Graph) (provider : String) : Except String Graph :=
  edge (decide (consumer ∈ g.currentBases ∧ provider ∈ g.currentBases)) consumer g provider

def addTrigger (rule : RebuildRule) (g : Graph) (trigger : String) : Except String Graph :=
  if triggered g trigger = [] then
    .error s!"Rebuild trigger {trigger} for {rule.pkgbase} is absent from both inventories."
  else (triggered g trigger).foldlM (ruleEdge rule.pkgbase) g

def addRule (g : Graph) (rule : RebuildRule) : Except String Graph :=
  if rule.pkgbase ∉ g.allBases ∨ rule.rebuildOn.length > 256 then
    .error "Rebuild rule must name an existing package base with at most 256 triggers."
  else rule.rebuildOn.foldlM (addTrigger rule) g

/-! ## What is reached -/

/-- What was reached, from whom, and who is still to be followed. -/
structure Spread where
  members : List String
  causes : List (String × String)
  queue : List String

def consumers (g : Graph) (provider : String) : List String :=
  sorted ((g.reverse.filter (·.1 = provider)).map (·.2))

/-- A consumer of `provider`. -/
def reach (provider : String) (s : Spread) (consumer : String) : Spread :=
  let causes := s.causes.insert (consumer, provider)
  if consumer ∈ s.members then { s with causes }
  else { members := s.members ++ [consumer], causes, queue := s.queue ++ [consumer] }

/-- The rounds of the queue; each takes one off, and none comes twice. -/
def spread (g : Graph) : Nat → Spread → Spread
  | 0, s => s
  | fuel + 1, s =>
    match s.queue with
    | [] => s
    | provider :: queue => spread g fuel ((consumers g provider).foldl (reach provider) { s with queue })

/-- What the changed bases reach. -/
def affected (g : Graph) (seeds : List String) : Spread :=
  spread g (seeds.length + g.reverse.length) ⟨seeds, [], sorted seeds⟩

/-! ## Build groups -/

structure BuildGroup where
  members : List String
  requiresBootstrapReview : Bool
  deriving DecidableEq

/-- The selected bases that a selected one depends on. -/
def edgesOf (g : Graph) (build : List String) (name : String) : List String :=
  sorted (((g.dependencies.filter (·.1 = name)).map (·.2)).filter (· ∈ build))

/-- The stack of the first search: a node, and whether it is left. -/
structure Search where
  stack : List (String × Bool)
  seen : List String
  finished : List String

def Search.step (edges : String → List String) (s : Search) : Search :=
  match s.stack with
  | [] => s
  | (node, true) :: stack => { s with stack, finished := s.finished ++ [node] }
  | (node, false) :: stack =>
    if node ∈ s.seen then { s with stack }
    else
      { s with
        stack := ((edges node).filter (· ∉ node :: s.seen)).map (·, false) ++ (node, true) :: stack
        seen := node :: s.seen }

/-- A search comes to its end: it enters and leaves each base once, and passes each edge once. -/
def searchRounds (edges : String → List String) (build : List String) : Nat :=
  1 + 2 * build.length + (build.map fun name => (edges name).length).sum

def searchFrom (edges : String → List String) (build : List String) (s : List String × List String) (root : String) :
    List String × List String :=
  let s' := (Search.step edges)^[searchRounds edges build] ⟨[(root, false)], s.1, s.2⟩
  (s'.seen, s'.finished)

/-- The bases in the order in which the first search left them. -/
def finishedOf (edges : String → List String) (build : List String) : List String :=
  (build.foldl (searchFrom edges build) ([], [])).2

/-- The consumers of a base, in the order of the selected bases. -/
def reversedOf (edges : String → List String) (build : List String) (name : String) : List String :=
  build.flatMap fun consumer => ((edges consumer).filter (· = name)).map fun _ => consumer

/-- The stack of the second search, who was seen, and the group that it finds. -/
structure Collect where
  stack : List String
  seen : List String
  group : List String

def Collect.push (s : Collect) (next : String) : Collect :=
  if next ∈ s.seen then s else { s with seen := next :: s.seen, stack := next :: s.stack }

def Collect.step (reversed : String → List String) (s : Collect) : Collect :=
  match s.stack with
  | [] => s
  | node :: stack => (reversed node).foldl Collect.push { s with stack, group := s.group ++ [node] }

def collectFrom (reversed : String → List String) (build : List String) (s : List String × List BuildGroup) (root : String) :
    List String × List BuildGroup :=
  if root ∈ s.1 then s
  else
    let c := (Collect.step reversed)^[build.length] ⟨[root], root :: s.1, []⟩
    (c.seen, s.2 ++ [⟨sorted c.group, c.group.length > 1⟩])

def groupsOf (edges : String → List String) (build : List String) : List BuildGroup :=
  (((finishedOf edges build).reverse.foldl (collectFrom (reversedOf edges build) build) ([], [])).2).reverse

/-! ## Plans -/

structure PlanMember where
  pkgbase : String
  changed : Bool
  removed : Bool
  affectedBy : List String
  deriving DecidableEq

structure Plan where
  architecture : Architecture
  seeds : List String
  members : List PlanMember
  buildGroups : List BuildGroup
  findings : List RebuildFinding
  unresolvedCandidateRelations : Nat
  ambiguousCandidateRelations : Nat

def candidateFindings (findings : List RebuildFinding) (p : List String → Bool) : Nat :=
  (findings.filter fun finding => finding.snapshot = .candidate && p finding.providers).length

def planMember (g : Graph) (seeds : List String) (causes : List (String × String)) (pkgbase : String) : PlanMember where
  pkgbase := pkgbase
  changed := pkgbase ∈ seeds
  removed := pkgbase ∉ g.currentBases
  affectedBy := sorted ((causes.filter (·.1 = pkgbase)).map (·.2))

/-- The plan of a graph. `collate` is `localeCompare` of findings as JSON. -/
def assemble (collate : RebuildFinding → RebuildFinding → Bool) (architecture : Architecture) (seeds : List String)
    (g : Graph) : Plan :=
  let reached := affected g seeds
  let build := sorted (reached.members.filter (· ∈ g.currentBases))
  let findings := g.findings.insertionSort fun a b => collate a b = true
  { architecture
    seeds := sorted seeds
    members := (sorted reached.members).map (planMember g seeds reached.causes)
    buildGroups := groupsOf (edgesOf g build) build
    findings
    unresolvedCandidateRelations := candidateFindings findings (·.isEmpty)
    ambiguousCandidateRelations := candidateFindings findings (1 < ·.length) }

/-- The packages of both snapshots and the rules. -/
def buildGraph (baseline candidate : List Package) (architecture : Architecture) (rules : List RebuildRule) :
    Except String Graph := do
  let g ← addSnapshot architecture .empty .baseline baseline
  let g ← addSnapshot architecture g .candidate candidate
  rules.foldlM addRule g

def planRebuilds (collate : RebuildFinding → RebuildFinding → Bool) (baseline candidate : List Package)
    (architecture : Architecture) (seeds : List String) (rules : List RebuildRule) : Except String Plan :=
  if seeds = [] ∨ seeds.length > 100000 ∨ ¬seeds.Nodup then
    .error "Choose a native target and unique changed package bases."
  else do
    let g ← buildGraph baseline candidate architecture rules
    match seeds.find? (· ∉ g.allBases) with
    | some seed => .error s!"Changed package base is absent from this target: {seed}"
    | none => .ok (assemble collate architecture seeds g)

end Omapkg.Server.Rebuild
