import Mathlib.Data.List.Sort
import Omapkg.Lib.Fallible
import Omapkg.Server.RebuildPlan
/-!
# The graph of a rebuild plan

The loops over the packages and the rules are runs of a few operations on the
graph: they succeed just where each package and rule keeps to its checks and the
graph to its budgets, and leave what the operations say. So the order of the
operations does not matter.
-/

namespace Omapkg.Server.Rebuild

open Utf Arch

/-! ## Steps of the graph -/

/-- What the loops do to a graph. -/
inductive Op where
  | base (snapshot : Snapshot) (entry : Package)
  | count (n : Nat)
  | note (finding : RebuildFinding)
  | edge (current : Bool) (consumer provider : String)

def Graph.apply (g : Graph) : Op → Graph
  | .base snapshot entry => g.addBase snapshot entry
  | .count n => { g with relationCount := g.relationCount + n }
  | .note finding => { g with findings := g.findings ++ [finding] }
  | .edge current consumer provider =>
    if consumer = provider then g
    else { g with
      reverse := g.reverse.insert (provider, consumer)
      dependencies := if current then g.dependencies.insert (consumer, provider) else g.dependencies }

def Graph.runs (g : Graph) (ops : List Op) : Graph := ops.foldl Graph.apply g

/-- The graph keeps to its budgets. -/
structure Within (g : Graph) : Prop where
  relations : g.relationCount ≤ maxRelations
  edges : g.reverse.length ≤ maxEdges

theorem runs_append (g : Graph) (ops ops' : List Op) : g.runs (ops ++ ops') = (g.runs ops).runs ops' :=
  List.foldl_append

theorem Within.of_apply {g : Graph} {op : Op} (h : Within (g.apply op)) : Within g := by
  cases op with
  | base snapshot entry => exact ⟨h.relations, h.edges⟩
  | count n =>
    have := h.relations
    exact ⟨by simp only [Graph.apply] at this; omega, h.edges⟩
  | note finding => exact ⟨h.relations, h.edges⟩
  | edge current consumer provider =>
    simp only [Graph.apply] at h
    by_cases heq : consumer = provider
    · rwa [if_pos heq] at h
    · rw [if_neg heq] at h
      refine ⟨h.relations, le_trans ?_ h.edges⟩
      simp only [List.length_insert]
      split <;> omega

theorem Within.of_runs {g : Graph} {ops : List Op} (h : Within (g.runs ops)) : Within g := by
  induction ops generalizing g with
  | nil => exact h
  | cons op ops ih => exact Within.of_apply (ih h)

/-- A step is done where `Cond` holds and the budgets are kept to, and does the operations. -/
def Does (result : Except String Graph) (Cond : Prop) (ops : List Op) (g : Graph) : Prop :=
  ∀ g', result = .ok g' ↔ Cond ∧ g' = g.runs ops ∧ Within g'

/-- `P` is what a step needs of a graph, and it keeps it. -/
theorem foldlM_does {α : Type} {f : Graph → α → Except String Graph} {Cond : α → Prop} {ops : α → List Op}
    {P : Graph → Prop} (hkeeps : ∀ g a, P g → P (g.runs (ops a)))
    (hstep : ∀ g a, P g → Within g → Does (f g a) (Cond a) (ops a) g) {g : Graph} (hg : P g) (hw : Within g) (l : List α) :
    Does (l.foldlM f g) (∀ a ∈ l, Cond a) (l.flatMap ops) g := by
  induction l generalizing g with
  | nil =>
    intro g'
    simp only [List.foldlM_nil, List.flatMap_nil, List.not_mem_nil, false_implies, implies_true, true_and]
    constructor
    · intro h
      cases h
      exact ⟨rfl, hw⟩
    · rintro ⟨rfl, -⟩
      rfl
  | cons a l ih =>
    intro g'
    simp only [List.foldlM_cons, List.flatMap_cons, List.forall_mem_cons, runs_append]
    constructor
    · intro h
      obtain ⟨g₁, h₁, h₂⟩ := Fallible.bind_ok.mp h
      obtain ⟨hc, rfl, hw₁⟩ := (hstep g a hg hw g₁).mp h₁
      obtain ⟨hcs, heq, hw'⟩ := (ih (hkeeps g a hg) hw₁ g').mp h₂
      exact ⟨⟨hc, hcs⟩, heq, hw'⟩
    · rintro ⟨⟨hc, hcs⟩, rfl, hw'⟩
      have hw₁ := Within.of_runs hw'
      rw [(hstep g a hg hw _).mpr ⟨hc, rfl, hw₁⟩]
      exact (ih (hkeeps g a hg) hw₁ _).mpr ⟨hcs, rfl, hw'⟩

theorem edge_does (current : Bool) (consumer provider : String) {g : Graph} (hw : Within g) :
    Does (edge current consumer g provider) True [.edge current consumer provider] g := by
  intro g'
  unfold edge
  simp only [true_and]
  by_cases heq : consumer = provider
  · rw [if_pos heq]
    have hsame : g.runs [.edge current consumer provider] = g := if_pos heq
    rw [hsame]
    constructor
    · intro h
      cases h
      exact ⟨rfl, hw⟩
    · rintro ⟨rfl, -⟩
      rfl
  · have hruns : g.runs [.edge current consumer provider] = { g with
        reverse := g.reverse.insert (provider, consumer)
        dependencies := if current then g.dependencies.insert (consumer, provider) else g.dependencies } := if_neg heq
    rw [if_neg heq, hruns]
    by_cases hfull : (provider, consumer) ∉ g.reverse ∧ g.reverse.length + 1 > maxEdges
    · rw [if_pos hfull]
      constructor
      · intro h
        cases h
      · rintro ⟨rfl, -, hedges⟩
        simp only [List.length_insert, if_neg hfull.1] at hedges
        omega
    · rw [if_neg hfull]
      constructor
      · intro h
        cases h
        refine ⟨rfl, hw.relations, ?_⟩
        have := hw.edges
        simp only [List.length_insert]
        split
        · exact this
        · next hnew => exact Nat.not_lt.mp fun hlt => hfull ⟨hnew, hlt⟩
      · rintro ⟨rfl, -⟩
        rfl

/-! ## The operations of a snapshot -/

def capabilitiesOf (entry : Package) : List String := (capabilities entry).toOption.getD []

theorem capabilities_ok {entry : Package} {names : List String} (h : capabilities entry = .ok names) :
    capabilitiesOf entry = names := by
  simp [capabilitiesOf, h, Except.toOption]

def packageOps (snapshot : Snapshot) (entry : Package) : List Op :=
  .base snapshot entry :: (capabilitiesOf entry).map fun _ => .count 1

def providersOf (packages : List Package) : List (String × Package) :=
  packages.flatMap fun entry => (capabilitiesOf entry).map fun name => (name, entry)

theorem countCapability_fold {entry : Package} (names : List String) {g : Graph} (hw : Within g)
    (providers : List (String × Package)) (s : Graph × List (String × Package)) :
    names.foldlM (countCapability entry) (g, providers) = .ok s ↔
      s = (g.runs (names.map fun _ => .count 1), providers ++ names.map fun name => (name, entry)) ∧ Within s.1 := by
  induction names generalizing g providers with
  | nil =>
    simp only [List.foldlM_nil, List.map_nil, List.append_nil]
    constructor
    · intro h
      cases h
      exact ⟨rfl, hw⟩
    · rintro ⟨rfl, -⟩
      rfl
  | cons name names ih =>
    simp only [List.foldlM_cons, List.map_cons]
    by_cases hfull : g.relationCount + 1 > maxRelations
    · have hfail : countCapability entry (g, providers) name =
          .error "Rebuild graph exceeds its dependency metadata budget." := if_pos hfull
      rw [hfail]
      constructor
      · intro h
        cases h
      · rintro ⟨rfl, hw'⟩
        have hone : Within (g.apply (.count 1)) := Within.of_runs hw'
        exact absurd hone.relations (Nat.not_le.mpr hfull)
    · have hstep : countCapability entry (g, providers) name = .ok (g.apply (.count 1), providers ++ [(name, entry)]) :=
        if_neg hfull
      have hone : Within (g.apply (.count 1)) := ⟨Nat.not_lt.mp hfull, hw.edges⟩
      rw [hstep]
      refine (ih hone _).trans ?_
      rw [List.append_assoc]
      rfl

theorem addPackage_fold {snapshot : Snapshot} (packages : List Package) {g : Graph} (hw : Within g)
    (providers : List (String × Package)) (s : Graph × List (String × Package)) :
    packages.foldlM (addPackage snapshot) (g, providers) = .ok s ↔
      (∀ entry ∈ packages, ∃ names, capabilities entry = .ok names) ∧
      s = (g.runs (packages.flatMap (packageOps snapshot)), providers ++ providersOf packages) ∧ Within s.1 := by
  induction packages generalizing g providers with
  | nil =>
    simp only [List.foldlM_nil, List.flatMap_nil, providersOf, List.append_nil]
    constructor
    · intro h
      cases h
      exact ⟨by simp, rfl, hw⟩
    · rintro ⟨-, rfl, -⟩
      rfl
  | cons entry packages ih =>
    simp only [List.foldlM_cons, List.forall_mem_cons]
    have hstep (s₁ : Graph × List (String × Package)) : addPackage snapshot (g, providers) entry = .ok s₁ ↔
        (∃ names, capabilities entry = .ok names) ∧
        s₁ = (g.runs (packageOps snapshot entry), providers ++ (capabilitiesOf entry).map fun name => (name, entry)) ∧
        Within s₁.1 := by
      unfold addPackage
      cases hnames : capabilities entry with
      | error e => simp [bind, Except.bind]
      | ok names =>
        have hbase : Within (g.addBase snapshot entry) := ⟨hw.relations, hw.edges⟩
        refine (countCapability_fold names hbase providers s₁).trans ?_
        rw [packageOps, capabilities_ok hnames]
        exact ⟨fun h => ⟨⟨names, rfl⟩, h⟩, fun h => h.2⟩
    constructor
    · intro h
      obtain ⟨s₁, h₁, h₂⟩ := Fallible.bind_ok.mp h
      obtain ⟨hc, rfl, hw₁⟩ := (hstep s₁).mp h₁
      obtain ⟨hcs, rfl, hw'⟩ := (ih hw₁ _).mp h₂
      refine ⟨⟨hc, hcs⟩, ?_, hw'⟩
      rw [List.flatMap_cons, runs_append, List.append_assoc]
      rfl
    · rintro ⟨⟨hc, hcs⟩, rfl, hw'⟩
      rw [List.flatMap_cons, runs_append] at hw'
      have hw₁ := Within.of_runs hw'
      rw [(hstep (g.runs (packageOps snapshot entry), _)).mpr ⟨hc, rfl, hw₁⟩]
      refine (ih hw₁ _).mpr ⟨hcs, ?_, by rwa [List.flatMap_cons, runs_append]⟩
      rw [List.flatMap_cons, runs_append, List.append_assoc]
      rfl

def noteOps (snapshot : Snapshot) (entry : Package) (value : String) (found : List Package) : List Op :=
  if (sorted (found.map (·.name))).length ≠ 1 then
    [.note ⟨snapshot, entry.pkgbase, entry.name, value, sorted (found.map (·.name))⟩]
  else []

theorem note_runs (g : Graph) (snapshot : Snapshot) (entry : Package) (value : String) (found : List Package) :
    g.note snapshot entry value found = g.runs (noteOps snapshot entry value found) := by
  unfold Graph.note noteOps
  simp only
  split <;> rfl

theorem noteOps_within {g : Graph} (hw : Within g) (snapshot : Snapshot) (entry : Package) (value : String)
    (found : List Package) : Within (g.note snapshot entry value found) := by
  unfold Graph.note
  simp only
  split
  · exact ⟨hw.relations, hw.edges⟩
  · exact hw

/-- The packages of a snapshot that satisfy a value, by their capabilities. -/
def foundFor (packages : List Package) (value : String) : List Package :=
  match parseArchRelation value with
  | none => []
  | some relation => matching (providersOf packages) relation

def relationOps (snapshot : Snapshot) (packages : List Package) (entry : Package) (value : String) : List Op :=
  noteOps snapshot entry value (foundFor packages value) ++
    (foundFor packages value).map fun provider => .edge (decide (snapshot = .candidate)) entry.pkgbase provider.pkgbase

theorem addRelation_does (snapshot : Snapshot) (packages : List Package) (entry : Package) (value : String) {g : Graph}
    (hw : Within g) :
    Does (addRelation snapshot (providersOf packages) entry g value) ((parseArchRelation value).isSome = true)
      (relationOps snapshot packages entry value) g := by
  intro g'
  unfold addRelation relationOps foundFor
  cases hparse : parseArchRelation value with
  | none => simp
  | some relation =>
    simp only [Option.isSome_some, true_and]
    have hfold := foldlM_does (P := fun _ => True) (fun _ _ _ => trivial)
      (fun g provider _ hg => edge_does (decide (snapshot = .candidate)) entry.pkgbase provider hg) trivial
      (noteOps_within hw snapshot entry value (matching (providersOf packages) relation))
      ((matching (providersOf packages) relation).map (·.pkgbase)) g'
    simp only [implies_true, true_and] at hfold
    rw [hfold, note_runs, runs_append, List.flatMap_map, ← List.map_eq_flatMap]

def relationsOps (snapshot : Snapshot) (packages : List Package) (entry : Package) : List Op :=
  .count (relations entry).length :: (relations entry).flatMap (relationOps snapshot packages entry)

def Relates (entry : Package) : Prop :=
  (relations entry).length ≤ 6144 ∧ ∀ value ∈ relations entry, (parseArchRelation value).isSome = true

theorem addRelations_does (snapshot : Snapshot) (packages : List Package) (entry : Package) {g : Graph} (hw : Within g) :
    Does (addRelations snapshot (providersOf packages) g entry) (Relates entry) (relationsOps snapshot packages entry) g := by
  intro g'
  unfold addRelations Relates
  simp only
  by_cases hfull : (relations entry).length > 6144 ∨ g.relationCount + (relations entry).length > maxRelations
  · rw [if_pos hfull]
    constructor
    · intro h
      cases h
    · rintro ⟨⟨hlength, -⟩, rfl, hw'⟩
      have hone : Within (g.apply (.count (relations entry).length)) := Within.of_runs hw'
      have := hone.relations
      simp only [Graph.apply] at this
      omega
  · rw [if_neg hfull]
    have hone : Within (g.apply (.count (relations entry).length)) := ⟨by simp only [Graph.apply]; omega, hw.edges⟩
    refine (foldlM_does (P := fun _ => True) (fun _ _ _ => trivial)
      (fun g value _ hg => addRelation_does snapshot packages entry value hg) trivial hone (relations entry) g').trans ?_
    constructor
    · rintro ⟨hc, heq, hw'⟩
      exact ⟨⟨by omega, hc⟩, heq, hw'⟩
    · rintro ⟨⟨-, hc⟩, heq, hw'⟩
      exact ⟨hc, heq, hw'⟩

def snapshotOps (snapshot : Snapshot) (packages : List Package) : List Op :=
  packages.flatMap (packageOps snapshot) ++ packages.flatMap (relationsOps snapshot packages)

/-- What is asked of a snapshot's packages for the target. -/
structure Listed (packages : List Package) : Prop where
  apart : (packages.map (·.name)).Nodup
  provided : ∀ entry ∈ packages, ∃ names, capabilities entry = .ok names
  related : ∀ entry ∈ packages, Relates entry

theorem addSnapshot_does (architecture : Architecture) (snapshot : Snapshot) (entries : List Package) {g : Graph}
    (hw : Within g) :
    Does (addSnapshot architecture g snapshot entries) (entries.length ≤ 100000 ∧ Listed (ofTarget architecture entries))
      (snapshotOps snapshot (ofTarget architecture entries)) g := by
  intro g'
  unfold addSnapshot
  simp only
  by_cases hlong : entries.length > 100000
  · rw [if_pos hlong]
    constructor
    · intro h
      cases h
    · rintro ⟨⟨hlength, -⟩, -⟩
      omega
  · rw [if_neg hlong]
    by_cases hapart : ((ofTarget architecture entries).map (·.name)).Nodup
    · rw [if_neg (not_not_intro hapart)]
      have hrelations {g : Graph} (hg : Within g) := foldlM_does (P := fun _ => True) (fun _ _ _ => trivial)
        (fun g entry _ hg => addRelations_does snapshot (ofTarget architecture entries) entry hg) trivial hg
        (ofTarget architecture entries) g'
      unfold snapshotOps
      rw [runs_append]
      constructor
      · intro h
        obtain ⟨s, hs, h⟩ := Fallible.bind_ok.mp h
        obtain ⟨hc, rfl, hw'⟩ := (addPackage_fold _ hw [] s).mp hs
        obtain ⟨hcs, heq, hw''⟩ := (hrelations hw').mp h
        exact ⟨⟨by omega, hapart, hc, hcs⟩, heq, hw''⟩
      · rintro ⟨⟨-, hlisted⟩, rfl, hw'⟩
        have hw₁ := Within.of_runs hw'
        rw [(addPackage_fold _ hw [] (_, providersOf (ofTarget architecture entries))).mpr ⟨hlisted.provided, rfl, hw₁⟩]
        exact (hrelations hw₁).mpr ⟨hlisted.related, rfl, hw'⟩
    · rw [if_pos hapart]
      constructor
      · intro h
        cases h
      · rintro ⟨⟨-, hlisted⟩, -⟩
        exact absurd hlisted.apart hapart

/-! ## The operations of the rules -/

theorem runs_of_edges {g : Graph} {ops : List Op} (h : ∀ op ∈ ops, ∃ current consumer provider, op = .edge current consumer provider) :
    (g.runs ops).allBases = g.allBases ∧ (g.runs ops).currentBases = g.currentBases ∧
      (g.runs ops).outputBases = g.outputBases := by
  induction ops generalizing g with
  | nil => exact ⟨rfl, rfl, rfl⟩
  | cons op ops ih =>
    obtain ⟨⟨current, consumer, provider, rfl⟩, hops⟩ := List.forall_mem_cons.mp h
    obtain ⟨hall, hcurrent, houtput⟩ := ih (g := g.apply (.edge current consumer provider)) hops
    have hsame : (g.apply (.edge current consumer provider)).allBases = g.allBases ∧
        (g.apply (.edge current consumer provider)).currentBases = g.currentBases ∧
        (g.apply (.edge current consumer provider)).outputBases = g.outputBases := by
      simp only [Graph.apply]
      split <;> exact ⟨rfl, rfl, rfl⟩
    exact ⟨hall.trans hsame.1, hcurrent.trans hsame.2.1, houtput.trans hsame.2.2⟩

/-- The bases are those of `g₀`. -/
structure SameBases (g₀ g : Graph) : Prop where
  all : g.allBases = g₀.allBases
  current : g.currentBases = g₀.currentBases
  output : g.outputBases = g₀.outputBases

theorem SameBases.runs {g₀ g : Graph} (h : SameBases g₀ g) {ops : List Op}
    (hops : ∀ op ∈ ops, ∃ current consumer provider, op = .edge current consumer provider) : SameBases g₀ (g.runs ops) := by
  obtain ⟨hall, hcurrent, houtput⟩ := runs_of_edges (g := g) hops
  exact ⟨hall.trans h.all, hcurrent.trans h.current, houtput.trans h.output⟩

def ruleOp (g : Graph) (consumer provider : String) : Op :=
  .edge (decide (consumer ∈ g.currentBases ∧ provider ∈ g.currentBases)) consumer provider

def triggerOps (g : Graph) (rule : RebuildRule) (trigger : String) : List Op :=
  (triggered g trigger).map (ruleOp g rule.pkgbase)

def ruleOps (g : Graph) (rule : RebuildRule) : List Op := rule.rebuildOn.flatMap (triggerOps g rule)

theorem triggerOps_edges (g : Graph) (rule : RebuildRule) (trigger : String) :
    ∀ op ∈ triggerOps g rule trigger, ∃ current consumer provider, op = .edge current consumer provider := by
  intro op hop
  obtain ⟨provider, -, rfl⟩ := List.mem_map.mp hop
  exact ⟨_, _, _, rfl⟩

theorem ruleOps_edges (g : Graph) (rule : RebuildRule) :
    ∀ op ∈ ruleOps g rule, ∃ current consumer provider, op = .edge current consumer provider := by
  intro op hop
  obtain ⟨trigger, -, hop⟩ := List.mem_flatMap.mp hop
  exact triggerOps_edges g rule trigger op hop

theorem addTrigger_does (g₀ : Graph) (rule : RebuildRule) (trigger : String) {g : Graph} (hs : SameBases g₀ g)
    (hw : Within g) :
    Does (addTrigger rule g trigger) (triggered g₀ trigger ≠ []) (triggerOps g₀ rule trigger) g := by
  intro g'
  have htriggered : triggered g trigger = triggered g₀ trigger := by
    unfold triggered
    rw [hs.output, hs.all]
  unfold addTrigger
  rw [htriggered]
  by_cases hnone : triggered g₀ trigger = []
  · simp [hnone]
  · rw [if_neg hnone]
    have hedges : Does ((triggered g₀ trigger).foldlM (ruleEdge rule.pkgbase) g) (∀ provider ∈ triggered g₀ trigger, True)
        ((triggered g₀ trigger).flatMap fun provider => [ruleOp g₀ rule.pkgbase provider]) g := foldlM_does (P := SameBases g₀)
      (fun g provider hg => hg.runs fun op hop => ⟨_, _, _, List.mem_singleton.mp hop⟩)
      (fun g provider hg hwg => by
        unfold ruleEdge
        rw [hg.current]
        exact edge_does _ rule.pkgbase provider hwg)
      hs hw (triggered g₀ trigger)
    rw [hedges, triggerOps, List.map_eq_flatMap]
    exact ⟨fun h => ⟨hnone, h.2⟩, fun h => ⟨fun _ _ => trivial, h.2⟩⟩

/-- What is asked of a rule. -/
def Ruled (g : Graph) (rule : RebuildRule) : Prop :=
  rule.pkgbase ∈ g.allBases ∧ rule.rebuildOn.length ≤ 256 ∧ ∀ trigger ∈ rule.rebuildOn, triggered g trigger ≠ []

theorem addRule_does (g₀ : Graph) (rule : RebuildRule) {g : Graph} (hs : SameBases g₀ g) (hw : Within g) :
    Does (addRule g rule) (Ruled g₀ rule) (ruleOps g₀ rule) g := by
  intro g'
  unfold addRule Ruled
  rw [hs.all]
  by_cases hbad : rule.pkgbase ∉ g₀.allBases ∨ rule.rebuildOn.length > 256
  · rw [if_pos hbad]
    constructor
    · intro h
      cases h
    · rintro ⟨⟨hmem, hlength, -⟩, -⟩
      rcases hbad with hbad | hbad
      · exact absurd hmem hbad
      · omega
  · rw [if_neg hbad]
    push Not at hbad
    have htriggers := foldlM_does (P := SameBases g₀) (fun g trigger hg => hg.runs (triggerOps_edges g₀ rule trigger))
      (fun g trigger hg hwg => addTrigger_does g₀ rule trigger hg hwg) hs hw rule.rebuildOn g'
    rw [htriggers]
    exact ⟨fun h => ⟨⟨hbad.1, hbad.2, h.1⟩, h.2⟩, fun h => ⟨h.1.2.2, h.2⟩⟩

/-! ## The whole graph -/

def basesOps (baseline candidate : List Package) : List Op :=
  snapshotOps .baseline baseline ++ snapshotOps .candidate candidate

/-- The graph of the two snapshots. -/
def inventory (baseline candidate : List Package) : Graph := Graph.empty.runs (basesOps baseline candidate)

def graphOps (baseline candidate : List Package) (rules : List RebuildRule) : List Op :=
  basesOps baseline candidate ++ rules.flatMap (ruleOps (inventory baseline candidate))

/-- What is asked of the packages and the rules. -/
structure Accepts (baseline candidate : List Package) (architecture : Architecture) (rules : List RebuildRule) : Prop where
  short : baseline.length ≤ 100000 ∧ candidate.length ≤ 100000
  before : Listed (ofTarget architecture baseline)
  after : Listed (ofTarget architecture candidate)
  ruled : ∀ rule ∈ rules, Ruled (inventory (ofTarget architecture baseline) (ofTarget architecture candidate)) rule

theorem within_empty : Within Graph.empty := ⟨Nat.zero_le _, Nat.zero_le _⟩

theorem buildGraph_does (baseline candidate : List Package) (architecture : Architecture) (rules : List RebuildRule) :
    Does (buildGraph baseline candidate architecture rules) (Accepts baseline candidate architecture rules)
      (graphOps (ofTarget architecture baseline) (ofTarget architecture candidate) rules) .empty := by
  intro g'
  unfold buildGraph graphOps
  rw [runs_append]
  have hbaseline := addSnapshot_does architecture .baseline baseline within_empty
  have hrules {g : Graph} (hs : SameBases (inventory (ofTarget architecture baseline) (ofTarget architecture candidate)) g)
      (hg : Within g) := foldlM_does (P := SameBases (inventory (ofTarget architecture baseline) (ofTarget architecture candidate)))
    (fun g rule hg => hg.runs (ruleOps_edges _ rule))
    (fun g rule hg hwg => addRule_does _ rule hg hwg) hs hg rules g'
  constructor
  · intro h
    obtain ⟨g₁, h₁, h⟩ := Fallible.bind_ok.mp h
    obtain ⟨g₂, h₂, h₃⟩ := Fallible.bind_ok.mp h
    obtain ⟨⟨hlength₁, hlisted₁⟩, rfl, hw₁⟩ := (hbaseline g₁).mp h₁
    obtain ⟨⟨hlength₂, hlisted₂⟩, hg₂, hw₂⟩ := (addSnapshot_does architecture .candidate candidate hw₁ g₂).mp h₂
    rw [← runs_append] at hg₂
    subst hg₂
    obtain ⟨hruled, heq, hw'⟩ := (hrules ⟨rfl, rfl, rfl⟩ hw₂).mp h₃
    exact ⟨⟨⟨hlength₁, hlength₂⟩, hlisted₁, hlisted₂, hruled⟩, heq, hw'⟩
  · rintro ⟨haccepts, heq, hw'⟩
    have hw₂ : Within (inventory (ofTarget architecture baseline) (ofTarget architecture candidate)) := by
      rw [heq] at hw'
      exact Within.of_runs hw'
    have hw₁ : Within (Graph.empty.runs (snapshotOps .baseline (ofTarget architecture baseline))) := by
      unfold inventory basesOps at hw₂
      rw [runs_append] at hw₂
      exact Within.of_runs hw₂
    refine Fallible.bind_ok.mpr ⟨_, (hbaseline _).mpr ⟨⟨haccepts.short.1, haccepts.before⟩, rfl, hw₁⟩, ?_⟩
    refine Fallible.bind_ok.mpr ⟨inventory (ofTarget architecture baseline) (ofTarget architecture candidate), ?_, ?_⟩
    · exact (addSnapshot_does architecture .candidate candidate hw₁ _).mpr
        ⟨⟨haccepts.short.2, haccepts.after⟩, by rw [inventory, basesOps, runs_append], hw₂⟩
    · exact (hrules ⟨rfl, rfl, rfl⟩ hw₂).mpr ⟨haccepts.ruled, heq, hw'⟩

/-! ## What the operations leave -/

theorem mem_allBases {g : Graph} {ops : List Op} {x : String} :
    x ∈ (g.runs ops).allBases ↔ x ∈ g.allBases ∨ ∃ snapshot entry, .base snapshot entry ∈ ops ∧ entry.pkgbase = x := by
  induction ops generalizing g with
  | nil => simp [Graph.runs]
  | cons op ops ih =>
    refine (ih (g := g.apply op)).trans ?_
    cases op with
    | base snapshot entry =>
      simp only [Graph.apply, Graph.addBase, List.mem_insert_iff, List.mem_cons, Op.base.injEq]
      constructor
      · rintro ((rfl | h) | ⟨s, e, h, rfl⟩)
        · exact .inr ⟨_, _, .inl ⟨rfl, rfl⟩, rfl⟩
        · exact .inl h
        · exact .inr ⟨s, e, .inr h, rfl⟩
      · rintro (h | ⟨s, e, ⟨rfl, rfl⟩ | h, rfl⟩)
        · exact .inl (.inr h)
        · exact .inl (.inl rfl)
        · exact .inr ⟨s, e, h, rfl⟩
    | count n => simp [Graph.apply]
    | note finding => simp [Graph.apply]
    | edge current consumer provider =>
      simp only [Graph.apply]
      split <;> simp

theorem mem_currentBases {g : Graph} {ops : List Op} {x : String} :
    x ∈ (g.runs ops).currentBases ↔ x ∈ g.currentBases ∨ ∃ entry, .base .candidate entry ∈ ops ∧ entry.pkgbase = x := by
  induction ops generalizing g with
  | nil => simp [Graph.runs]
  | cons op ops ih =>
    refine (ih (g := g.apply op)).trans ?_
    cases op with
    | base snapshot entry =>
      cases snapshot with
      | baseline => simp [Graph.apply, Graph.addBase]
      | candidate =>
        simp only [Graph.apply, Graph.addBase, List.mem_insert_iff, List.mem_cons, Op.base.injEq, true_and, if_true]
        constructor
        · rintro ((rfl | h) | ⟨e, h, rfl⟩)
          · exact .inr ⟨_, .inl rfl, rfl⟩
          · exact .inl h
          · exact .inr ⟨e, .inr h, rfl⟩
        · rintro (h | ⟨e, rfl | h, rfl⟩)
          · exact .inl (.inr h)
          · exact .inl (.inl rfl)
          · exact .inr ⟨e, h, rfl⟩
    | count n => simp [Graph.apply]
    | note finding => simp [Graph.apply]
    | edge current consumer provider =>
      simp only [Graph.apply]
      split <;> simp

theorem mem_outputBases {g : Graph} {ops : List Op} {x : String × String} :
    x ∈ (g.runs ops).outputBases ↔
      x ∈ g.outputBases ∨ ∃ snapshot entry, .base snapshot entry ∈ ops ∧ (entry.name, entry.pkgbase) = x := by
  induction ops generalizing g with
  | nil => simp [Graph.runs]
  | cons op ops ih =>
    refine (ih (g := g.apply op)).trans ?_
    cases op with
    | base snapshot entry =>
      simp only [Graph.apply, Graph.addBase, List.mem_insert_iff, List.mem_cons, Op.base.injEq]
      constructor
      · rintro ((rfl | h) | ⟨s, e, h, rfl⟩)
        · exact .inr ⟨_, _, .inl ⟨rfl, rfl⟩, rfl⟩
        · exact .inl h
        · exact .inr ⟨s, e, .inr h, rfl⟩
      · rintro (h | ⟨s, e, ⟨rfl, rfl⟩ | h, rfl⟩)
        · exact .inl (.inr h)
        · exact .inl (.inl rfl)
        · exact .inr ⟨s, e, h, rfl⟩
    | count n => simp [Graph.apply]
    | note finding => simp [Graph.apply]
    | edge current consumer provider =>
      simp only [Graph.apply]
      split <;> simp

theorem mem_reverse {g : Graph} {ops : List Op} {consumer provider : String} :
    (provider, consumer) ∈ (g.runs ops).reverse ↔
      (provider, consumer) ∈ g.reverse ∨ consumer ≠ provider ∧ ∃ current, .edge current consumer provider ∈ ops := by
  induction ops generalizing g with
  | nil => simp [Graph.runs]
  | cons op ops ih =>
    refine (ih (g := g.apply op)).trans ?_
    cases op with
    | base snapshot entry => simp [Graph.apply, Graph.addBase]
    | count n => simp [Graph.apply]
    | note finding => simp [Graph.apply]
    | edge current c p =>
      simp only [Graph.apply, List.mem_cons, Op.edge.injEq]
      by_cases heq : c = p
      · rw [if_pos heq]
        subst heq
        grind
      · rw [if_neg heq]
        simp only [List.mem_insert_iff, Prod.mk.injEq]
        grind

theorem mem_dependencies {g : Graph} {ops : List Op} {consumer provider : String} :
    (consumer, provider) ∈ (g.runs ops).dependencies ↔
      (consumer, provider) ∈ g.dependencies ∨ consumer ≠ provider ∧ .edge true consumer provider ∈ ops := by
  induction ops generalizing g with
  | nil => simp [Graph.runs]
  | cons op ops ih =>
    refine (ih (g := g.apply op)).trans ?_
    cases op with
    | base snapshot entry => simp [Graph.apply, Graph.addBase]
    | count n => simp [Graph.apply]
    | note finding => simp [Graph.apply]
    | edge current c p =>
      simp only [Graph.apply, List.mem_cons, Op.edge.injEq]
      by_cases heq : c = p
      · rw [if_pos heq]
        subst heq
        grind
      · rw [if_neg heq]
        cases current with
        | false => simp
        | true =>
          simp only [if_true, List.mem_insert_iff, Prod.mk.injEq]
          grind

def Op.finding? : Op → Option RebuildFinding
  | .note finding => some finding
  | _ => none

def Op.relations : Op → Nat
  | .count n => n
  | _ => 0

theorem runs_findings (g : Graph) (ops : List Op) : (g.runs ops).findings = g.findings ++ ops.filterMap Op.finding? := by
  induction ops generalizing g with
  | nil => simp [Graph.runs]
  | cons op ops ih =>
    refine (ih (g.apply op)).trans ?_
    cases op with
    | base snapshot entry => rfl
    | count n => rfl
    | note finding => simp [Graph.apply, Op.finding?]
    | edge current consumer provider =>
      simp only [Graph.apply, List.filterMap_cons, Op.finding?]
      split <;> rfl

theorem runs_relationCount (g : Graph) (ops : List Op) :
    (g.runs ops).relationCount = g.relationCount + (ops.map Op.relations).sum := by
  induction ops generalizing g with
  | nil => simp [Graph.runs]
  | cons op ops ih =>
    refine (ih (g.apply op)).trans ?_
    rw [List.map_cons, List.sum_cons]
    cases op with
    | base snapshot entry => simp [Graph.apply, Graph.addBase, Op.relations]
    | count n =>
      simp only [Graph.apply, Op.relations]
      omega
    | note finding => simp [Graph.apply, Op.relations]
    | edge current consumer provider =>
      simp only [Graph.apply, Op.relations]
      split <;> simp

/-- Each base, pair and edge is there once. -/
structure Once (g : Graph) : Prop where
  all : g.allBases.Nodup
  current : g.currentBases.Nodup
  output : g.outputBases.Nodup
  reverse : g.reverse.Nodup
  dependencies : g.dependencies.Nodup

theorem Once.runs {g : Graph} (h : Once g) (ops : List Op) : Once (g.runs ops) := by
  induction ops generalizing g with
  | nil => exact h
  | cons op ops ih =>
    refine ih (g := g.apply op) ?_
    cases op with
    | base snapshot entry =>
      refine ⟨h.all.insert, ?_, h.output.insert, h.reverse, h.dependencies⟩
      simp only [Graph.apply, Graph.addBase]
      split
      · exact h.current.insert
      · exact h.current
    | count n => exact ⟨h.all, h.current, h.output, h.reverse, h.dependencies⟩
    | note finding => exact ⟨h.all, h.current, h.output, h.reverse, h.dependencies⟩
    | edge current consumer provider =>
      simp only [Graph.apply]
      split
      · exact h
      · refine ⟨h.all, h.current, h.output, h.reverse.insert, ?_⟩
        simp only
        split
        · exact h.dependencies.insert
        · exact h.dependencies

theorem once_empty : Once .empty := ⟨.nil, .nil, .nil, .nil, .nil⟩

end Omapkg.Server.Rebuild
