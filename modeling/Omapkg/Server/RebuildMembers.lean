import Mathlib.Algebra.BigOperators.Group.List.Basic
import Mathlib.Data.List.Perm.Basic
import Mathlib.Data.List.Perm.Subperm
import Mathlib.Data.Set.Basic
import Mathlib.Order.Bounds.Basic
import Omapkg.Server.RebuildGraph
/-!
# The members of a rebuild plan

What the queue reaches is the least set that has the changed bases and is closed
under the consumers of what it has, where the edges are those of the two snapshots
and the rules. The plan does not tell the order of its lists.
-/

namespace Omapkg.Server.Rebuild

open Utf Arch

/-! ## What the changed bases reach -/

theorem sorted_perm (names : List String) : (sorted names).Perm names := List.perm_insertionSort _ _

theorem sorted_pairwise (names : List String) : (sorted names).Pairwise UnitsLE := by
  have htotal : Std.Total UnitsLE := ⟨fun a b => le_total (α := List Nat) _ _⟩
  have htrans : IsTrans String UnitsLE := ⟨fun a b c => le_trans (α := List Nat)⟩
  exact List.pairwise_insertionSort _ names

theorem UnitsLE.antisymm {a b : String} (h : UnitsLE a b) (h' : UnitsLE b a) : a = b := by
  have heq := le_antisymm h h'
  exact units_injective (List.map_injective_iff.mpr (fun _ _ => UInt16.toNat_inj.mp) heq)

theorem sorted_congr {names names' : List String} (h : names.Perm names') : sorted names = sorted names' :=
  ((sorted_perm names).trans (h.trans (sorted_perm names').symm)).eq_of_pairwise
    (fun _ _ _ _ hab hba => hab.antisymm hba) (sorted_pairwise names) (sorted_pairwise names')

theorem mem_sorted {names : List String} {x : String} : x ∈ sorted names ↔ x ∈ names := (sorted_perm names).mem_iff

theorem mem_consumers {g : Graph} {provider consumer : String} :
    consumer ∈ consumers g provider ↔ (provider, consumer) ∈ g.reverse := by
  unfold consumers
  rw [mem_sorted]
  simp only [List.mem_map, List.mem_filter, decide_eq_true_eq]
  constructor
  · rintro ⟨⟨p, c⟩, ⟨hmem, rfl⟩, rfl⟩
    exact hmem
  · exact fun h => ⟨(provider, consumer), ⟨h, rfl⟩, rfl⟩

theorem consumers_nodup {g : Graph} (h : g.reverse.Nodup) (provider : String) : (consumers g provider).Nodup := by
  unfold consumers
  rw [(sorted_perm _).nodup_iff]
  refine (h.filter _).map_on ?_
  rintro ⟨p, c⟩ hx ⟨p', c'⟩ hy heq
  rw [List.mem_filter, decide_eq_true_eq] at hx hy
  exact Prod.ext (hx.2.trans hy.2.symm) heq

theorem foldl_reach (provider : String) {cs : List String} (hcs : cs.Nodup) (s : Spread) :
    (cs.foldl (reach provider) s).members = s.members ++ cs.filter (· ∉ s.members) ∧
      (cs.foldl (reach provider) s).queue = s.queue ++ cs.filter (· ∉ s.members) ∧
      ∀ x, x ∈ (cs.foldl (reach provider) s).causes ↔ x ∈ s.causes ∨ x.2 = provider ∧ x.1 ∈ cs := by
  induction cs generalizing s with
  | nil => simp
  | cons c cs ih =>
    rw [List.nodup_cons] at hcs
    obtain ⟨hmembers, hqueue, hcauses⟩ := ih hcs.2 (reach provider s c)
    rw [List.foldl_cons]
    have hnew : ∀ x, x ∈ (reach provider s c).causes ↔ x ∈ s.causes ∨ x = (c, provider) := by
      intro x
      unfold reach
      simp only
      split <;> simp [or_comm]
    have hcauses' : ∀ x, x ∈ (cs.foldl (reach provider) (reach provider s c)).causes ↔
        x ∈ s.causes ∨ x.2 = provider ∧ x.1 ∈ c :: cs := by
      rintro ⟨x, y⟩
      rw [hcauses, hnew]
      grind
    have hrest  : cs.filter (· ∉ s.members ++ [c]) = cs.filter (· ∉ s.members) := by
      apply List.filter_congr
      intro x hx
      have hne : x ≠ c := fun h => hcs.1 (h ▸ hx)
      simp [hne]
    refine ⟨?_, ?_, hcauses'⟩
    · rw [hmembers]
      by_cases hc : c ∈ s.members
      · simp [reach, hc]
      · rw [List.filter_cons_of_pos (by simp [hc])]
        simp only [reach, if_neg hc, List.append_assoc, List.singleton_append]
        refine congrArg (fun l => s.members ++ c :: l) hrest
    · rw [hqueue]
      by_cases hc : c ∈ s.members
      · simp [reach, hc]
      · rw [List.filter_cons_of_pos (by simp [hc])]
        simp only [reach, if_neg hc, List.append_assoc, List.singleton_append]
        refine congrArg (fun l => s.queue ++ c :: l) hrest

theorem foldl_reach_nodup {provider : String} (cs : List String) {s : Spread} (h : s.causes.Nodup) :
    (cs.foldl (reach provider) s).causes.Nodup := by
  induction cs generalizing s with
  | nil => exact h
  | cons c cs ih =>
    refine ih (s := reach provider s c) ?_
    unfold reach
    simp only
    split <;> exact h.insert

/-- What a round keeps: who is no longer in the queue was followed. -/
structure Spreads (g : Graph) (seeds : List String) (s : Spread) : Prop where
  members : s.members.Nodup
  causes : s.causes.Nodup
  queue : s.queue.Nodup
  queued : s.queue ⊆ s.members
  rooted : seeds ⊆ s.members
  followed : ∀ p ∈ s.members, p ∉ s.queue → ∀ c, (p, c) ∈ g.reverse → c ∈ s.members
  cause : ∀ c p, (c, p) ∈ s.causes ↔ p ∈ s.members ∧ p ∉ s.queue ∧ (p, c) ∈ g.reverse
  least : ∀ S : Set String, (∀ x ∈ seeds, x ∈ S) → (∀ p ∈ S, ∀ c, (p, c) ∈ g.reverse → c ∈ S) → ∀ x ∈ s.members, x ∈ S

theorem spreads_start (g : Graph) {seeds : List String} (h : seeds.Nodup) : Spreads g seeds ⟨seeds, [], sorted seeds⟩ where
  members := h
  causes := .nil
  queue := (sorted_perm seeds).nodup_iff.mpr h
  queued := fun _ hx => mem_sorted.mp hx
  rooted := fun _ hx => hx
  followed := fun p hp hq => absurd (mem_sorted.mpr hp) hq
  cause := fun c p => by
    simp only [List.not_mem_nil, false_iff]
    exact fun ⟨hp, hq, _⟩ => hq (mem_sorted.mpr hp)
  least := fun _ hS _ => hS

theorem Spreads.step {g : Graph} {seeds : List String} {provider : String} {queue : List String} {s : Spread}
    (h : Spreads g seeds s) (hg : g.reverse.Nodup) (hq : s.queue = provider :: queue) :
    Spreads g seeds ((consumers g provider).foldl (reach provider) { s with queue }) := by
  obtain ⟨hmembers, hqueue, hcauses⟩ := foldl_reach provider (consumers_nodup hg provider) { s with queue }
  simp only at hmembers hqueue hcauses
  have hnodup := h.queue
  have hqueued := h.queued
  rw [hq] at hnodup hqueued
  rw [List.nodup_cons] at hnodup
  have hprovider : provider ∈ s.members := hqueued List.mem_cons_self
  have hmem (x : String) : x ∈ s.members ++ (consumers g provider).filter (· ∉ s.members) ↔
      x ∈ s.members ∨ (provider, x) ∈ g.reverse := by
    simp only [List.mem_append, List.mem_filter, mem_consumers, decide_eq_true_eq]
    tauto
  have hnew : ((consumers g provider).filter (· ∉ s.members)).Nodup := (consumers_nodup hg provider).filter _
  have hwaits (p : String) : p ∈ queue ++ (consumers g provider).filter (· ∉ s.members) ↔
      p ∈ queue ∨ p ∉ s.members ∧ (provider, p) ∈ g.reverse := by
    simp only [List.mem_append, List.mem_filter, mem_consumers, decide_eq_true_eq]
    tauto
  have hwas (p : String) : p ∈ s.queue ↔ p = provider ∨ p ∈ queue := by rw [hq, List.mem_cons]
  refine ⟨?_, foldl_reach_nodup _ h.causes, ?_, ?_, ?_, ?_, ?_, ?_⟩
  · rw [hmembers]
    refine h.members.append hnew ?_
    intro x hx hx'
    rw [List.mem_filter, decide_eq_true_eq] at hx'
    exact hx'.2 hx
  · rw [hqueue]
    refine hnodup.2.append hnew ?_
    intro x hx hx'
    rw [List.mem_filter, decide_eq_true_eq] at hx'
    exact hx'.2 (hqueued (List.mem_cons_of_mem _ hx))
  · rw [hqueue, hmembers]
    intro x hx
    rw [hwaits] at hx
    rw [hmem]
    rcases hx with hx | hx
    · exact .inl (hqueued (List.mem_cons_of_mem _ hx))
    · exact .inr hx.2
  · rw [hmembers]
    exact fun x hx => List.mem_append_left _ (h.rooted hx)
  · rw [hmembers, hqueue]
    intro p hp hnot c hc
    rw [hmem] at hp ⊢
    rw [hwaits] at hnot
    by_cases hpp : p = provider
    · exact .inr (hpp ▸ hc)
    · have hp' : p ∈ s.members := by tauto
      have hnot' : p ∉ s.queue := by
        rw [hwas]
        tauto
      exact .inl (h.followed p hp' hnot' c hc)
  · intro c p
    rw [hcauses, hmembers, hqueue, h.cause, hmem, hwaits, hwas, mem_consumers]
    constructor
    · rintro (⟨hp, hnot, hc⟩ | ⟨rfl, hc⟩)
      · exact ⟨.inl hp, by tauto, hc⟩
      · exact ⟨.inl hprovider, by tauto, hc⟩
    · rintro ⟨hp, hnot, hc⟩
      by_cases hpp : p = provider
      · exact .inr ⟨hpp, hpp ▸ hc⟩
      · exact .inl ⟨by tauto, by tauto, hc⟩
  · intro S hS hclosed x hx
    rw [hmembers, hmem] at hx
    rcases hx with hx | hx
    · exact h.least S hS hclosed x hx
    · exact hclosed provider (h.least S hS hclosed provider hprovider) x hx

/-- The rounds that are left. -/
def waiting (g : Graph) (s : Spread) : Nat := s.queue.length + (g.reverse.filter fun e => e.2 ∉ s.members).length

theorem waiting_step {g : Graph} {provider : String} {queue : List String} {s : Spread} (hg : g.reverse.Nodup)
    (hq : s.queue = provider :: queue) :
    waiting g ((consumers g provider).foldl (reach provider) { s with queue }) < waiting g s := by
  obtain ⟨hmembers, hqueue, -⟩ := foldl_reach provider (consumers_nodup hg provider) { s with queue }
  simp only at hmembers hqueue
  unfold waiting
  rw [hmembers, hqueue, hq, List.length_append, List.length_cons]
  generalize hnew : (consumers g provider).filter (· ∉ s.members) = new
  have hnodup : new.Nodup := hnew ▸ (consumers_nodup hg provider).filter _
  have hmem (x : String) : x ∈ new ↔ (provider, x) ∈ g.reverse ∧ x ∉ s.members := by
    rw [← hnew, List.mem_filter, mem_consumers, decide_eq_true_eq]
  have hsub : (new.map (provider, ·) ++ g.reverse.filter fun e => e.2 ∉ s.members ++ new) ⊆
      g.reverse.filter fun e => e.2 ∉ s.members := by
    intro e he
    rw [List.mem_append, List.mem_map, List.mem_filter, decide_eq_true_eq, List.mem_append] at he
    rw [List.mem_filter, decide_eq_true_eq]
    rcases he with ⟨x, hx, rfl⟩ | ⟨he, hnot⟩
    · exact (hmem x).mp hx
    · exact ⟨he, fun h => hnot (.inl h)⟩
  have happend : (new.map (provider, ·) ++ g.reverse.filter fun e => e.2 ∉ s.members ++ new).Nodup := by
    refine (hnodup.map (Prod.mk_right_injective provider)).append (hg.filter _) ?_
    intro e he he'
    obtain ⟨x, hx, rfl⟩ := List.mem_map.mp he
    rw [List.mem_filter, decide_eq_true_eq, List.mem_append] at he'
    exact he'.2 (.inr hx)
  have hlength := (happend.subperm hsub).length_le
  rw [List.length_append, List.length_map] at hlength
  omega

theorem spread_spreads {g : Graph} {seeds : List String} (hg : g.reverse.Nodup) {fuel : Nat} {s : Spread}
    (h : Spreads g seeds s) (hfuel : waiting g s ≤ fuel) :
    Spreads g seeds (spread g fuel s) ∧ (spread g fuel s).queue = [] := by
  induction fuel generalizing s with
  | zero =>
    refine ⟨h, ?_⟩
    unfold waiting at hfuel
    exact List.length_eq_zero_iff.mp (show s.queue.length = 0 by omega)
  | succ fuel ih =>
    unfold spread
    cases hq : s.queue with
    | nil => exact ⟨h, hq⟩
    | cons provider queue =>
      have hless := waiting_step hg hq
      exact ih (h.step hg hq) (by omega)

/-- What is reached is closed, and nothing smaller is. -/
structure Reached (g : Graph) (seeds : List String) (s : Spread) : Prop where
  members : s.members.Nodup
  causes : s.causes.Nodup
  rooted : seeds ⊆ s.members
  closed : ∀ p ∈ s.members, ∀ c, (p, c) ∈ g.reverse → c ∈ s.members
  cause : ∀ c p, (c, p) ∈ s.causes ↔ p ∈ s.members ∧ (p, c) ∈ g.reverse
  least : ∀ S : Set String, (∀ x ∈ seeds, x ∈ S) → (∀ p ∈ S, ∀ c, (p, c) ∈ g.reverse → c ∈ S) → ∀ x ∈ s.members, x ∈ S

theorem affected_reached {g : Graph} (hg : g.reverse.Nodup) {seeds : List String} (h : seeds.Nodup) :
    Reached g seeds (affected g seeds) := by
  have hfuel : waiting g ⟨seeds, [], sorted seeds⟩ ≤ seeds.length + g.reverse.length := by
    have hlength := List.length_filter_le (fun e => decide (e.2 ∉ seeds)) g.reverse
    unfold waiting
    simp only [(sorted_perm seeds).length_eq]
    omega
  obtain ⟨hs, hqueue⟩ := spread_spreads hg (spreads_start g h) hfuel
  unfold affected
  generalize spread g (seeds.length + g.reverse.length) ⟨seeds, [], sorted seeds⟩ = s at hs hqueue
  refine ⟨hs.members, hs.causes, hs.rooted, ?_, ?_, hs.least⟩
  · exact fun p hp c hc => hs.followed p hp (by simp [hqueue]) c hc
  · intro c p
    rw [hs.cause, hqueue]
    simp

/-! ## Edges -/

/-- A package of `consumer` names a relation that a package of `provider` satisfies. -/
def DependsOn (packages : List Package) (consumer provider : String) : Prop :=
  ∃ entry ∈ packages, ∃ other ∈ packages, ∃ value ∈ entry.dependencies ++ entry.makeDependencies ++ entry.checkDependencies,
    ∃ relation, parseArchRelation value = some relation ∧
      satisfiesArchRelation relation other.name other.version other.provides = true ∧
      entry.pkgbase = consumer ∧ other.pkgbase = provider

/-- A rule has `consumer` rebuilt on `provider`, by the base's name or an output's. -/
def RuledOn (packages : List Package) (rules : List RebuildRule) (consumer provider : String) : Prop :=
  ∃ rule ∈ rules, rule.pkgbase = consumer ∧ ∃ trigger ∈ rule.rebuildOn,
    ∃ entry ∈ packages, entry.pkgbase = provider ∧ (trigger = entry.name ∨ trigger = entry.pkgbase)

def Edge (baseline candidate : List Package) (rules : List RebuildRule) (consumer provider : String) : Prop :=
  consumer ≠ provider ∧ (DependsOn baseline consumer provider ∨ DependsOn candidate consumer provider ∨
    RuledOn (baseline ++ candidate) rules consumer provider)

theorem capabilities_fold {entry : Package} {values names found : List String}
    (h : values.foldlM (addCapability entry) names = .ok found) :
    names ⊆ found ∧ ∀ value ∈ values, ∀ relation, parseArchRelation value = some relation → relation.name ∈ found := by
  induction values generalizing names with
  | nil =>
    cases h
    exact ⟨fun _ h => h, by simp⟩
  | cons value values ih =>
    rw [List.foldlM_cons] at h
    obtain ⟨names', h₁, h₂⟩ := Fallible.bind_ok.mp h
    obtain ⟨hsub, hvalues⟩ := ih h₂
    unfold addCapability at h₁
    cases hparse : parseArchRelation value with
    | none =>
      rw [hparse] at h₁
      cases h₁
    | some relation =>
      simp only [hparse] at h₁
      split at h₁
      · cases h₁
      · cases h₁
        refine ⟨fun x hx => hsub (List.mem_insert_of_mem hx), List.forall_mem_cons.mpr ⟨?_, hvalues⟩⟩
        intro relation' hrelation
        obtain rfl := Option.some.inj (hparse.symm.trans hrelation)
        exact hsub List.mem_insert_self

/-- What satisfies a relation is found under the relation's name. -/
theorem satisfies_capable {entry : Package} {names : List String} (h : capabilities entry = .ok names)
    {relation : ArchDependency} (hs : satisfiesArchRelation relation entry.name entry.version entry.provides = true) :
    relation.name ∈ names := by
  obtain ⟨hname, hprovides⟩ := capabilities_fold h
  unfold satisfiesArchRelation at hs
  split at hs
  · next heq =>
    rw [heq]
    exact hname List.mem_cons_self
  · obtain ⟨value, hvalue, hmatch⟩ := List.any_eq_true.mp hs
    cases hparse : parseArchRelation value with
    | none => simp [hparse] at hmatch
    | some provided =>
      simp only [hparse, Bool.and_eq_true, decide_eq_true_eq] at hmatch
      rw [← hmatch.1]
      exact hprovides value hvalue provided hparse

theorem mem_foundFor {packages : List Package} (hlisted : Listed packages) {value : String} {other : Package} :
    other ∈ foundFor packages value ↔ other ∈ packages ∧ ∃ relation, parseArchRelation value = some relation ∧
      satisfiesArchRelation relation other.name other.version other.provides = true := by
  unfold foundFor
  cases hparse : parseArchRelation value with
  | none => simp
  | some relation =>
    simp only [Option.some.injEq, exists_eq_left', matching, List.mem_filter, List.mem_map, decide_eq_true_eq, providersOf,
      List.mem_flatMap]
    constructor
    · rintro ⟨⟨x, ⟨⟨entry, hentry, name, hname, rfl⟩, -⟩, rfl⟩, hs⟩
      exact ⟨hentry, hs⟩
    · rintro ⟨hother, hs⟩
      obtain ⟨names, hnames⟩ := hlisted.provided other hother
      refine ⟨⟨(relation.name, other), ⟨⟨other, hother, relation.name, ?_, rfl⟩, rfl⟩, rfl⟩, hs⟩
      rw [capabilities_ok hnames]
      exact satisfies_capable hnames hs

theorem mem_relations {entry : Package} {value : String} :
    value ∈ relations entry ↔ value ∈ entry.dependencies ++ entry.makeDependencies ++ entry.checkDependencies := by
  unfold relations
  rw [mem_sorted, List.mem_eraseDups]

theorem base_mem_snapshotOps {s snapshot : Snapshot} {packages : List Package} {entry : Package} :
    .base snapshot entry ∈ snapshotOps s packages ↔ snapshot = s ∧ entry ∈ packages := by
  simp only [snapshotOps, packageOps, relationsOps, relationOps, noteOps, List.mem_append, List.mem_flatMap, List.mem_cons,
    List.mem_map, Op.base.injEq, reduceCtorEq, false_or, and_false, exists_false, or_false]
  constructor
  · rintro (⟨e, he, rfl, rfl⟩ | ⟨e, he, value, hvalue, hnote⟩)
    · exact ⟨rfl, he⟩
    · split at hnote <;> simp at hnote
  · rintro ⟨rfl, he⟩
    exact .inl ⟨entry, he, rfl, rfl⟩

theorem edge_mem_snapshotOps {s : Snapshot} {packages : List Package} (hlisted : Listed packages) {current : Bool}
    {consumer provider : String} :
    .edge current consumer provider ∈ snapshotOps s packages ↔
      current = decide (s = .candidate) ∧ DependsOn packages consumer provider := by
  simp only [snapshotOps, packageOps, relationsOps, relationOps, noteOps, List.mem_append, List.mem_flatMap, List.mem_cons,
    List.mem_map, Op.edge.injEq, reduceCtorEq, false_or, and_false, exists_false, mem_foundFor hlisted, mem_relations,
    DependsOn]
  constructor
  · rintro ⟨entry, hentry, value, hvalue, hnote | ⟨other, ⟨hother, relation, hparse, hs⟩, rfl, rfl, rfl⟩⟩
    · split at hnote <;> simp at hnote
    · exact ⟨rfl, entry, hentry, other, hother, value, by tauto, relation, hparse, hs, rfl, rfl⟩
  · rintro ⟨rfl, entry, hentry, other, hother, value, hvalue, relation, hparse, hs, rfl, rfl⟩
    exact ⟨entry, hentry, value, by tauto, .inr ⟨other, ⟨hother, relation, hparse, hs⟩, rfl, rfl, rfl⟩⟩

theorem mem_inventory_all {baseline candidate : List Package} {x : String} :
    x ∈ (inventory baseline candidate).allBases ↔ ∃ entry ∈ baseline ++ candidate, entry.pkgbase = x := by
  simp only [inventory, basesOps, mem_allBases, Graph.empty, List.not_mem_nil, false_or, List.mem_append, base_mem_snapshotOps]
  constructor
  · rintro ⟨s, entry, ⟨-, h⟩ | ⟨-, h⟩, rfl⟩
    · exact ⟨entry, .inl h, rfl⟩
    · exact ⟨entry, .inr h, rfl⟩
  · rintro ⟨entry, h | h, rfl⟩
    · exact ⟨_, entry, .inl ⟨rfl, h⟩, rfl⟩
    · exact ⟨_, entry, .inr ⟨rfl, h⟩, rfl⟩

theorem mem_inventory_output {baseline candidate : List Package} {x : String × String} :
    x ∈ (inventory baseline candidate).outputBases ↔ ∃ entry ∈ baseline ++ candidate, (entry.name, entry.pkgbase) = x := by
  simp only [inventory, basesOps, mem_outputBases, Graph.empty, List.not_mem_nil, false_or, List.mem_append,
    base_mem_snapshotOps]
  constructor
  · rintro ⟨s, entry, ⟨-, h⟩ | ⟨-, h⟩, rfl⟩
    · exact ⟨entry, .inl h, rfl⟩
    · exact ⟨entry, .inr h, rfl⟩
  · rintro ⟨entry, h | h, rfl⟩
    · exact ⟨_, entry, .inl ⟨rfl, h⟩, rfl⟩
    · exact ⟨_, entry, .inr ⟨rfl, h⟩, rfl⟩

theorem mem_inventory_current {baseline candidate : List Package} {x : String} :
    x ∈ (inventory baseline candidate).currentBases ↔ ∃ entry ∈ candidate, entry.pkgbase = x := by
  simp [inventory, basesOps, mem_currentBases, Graph.empty, base_mem_snapshotOps]

theorem mem_triggered {g : Graph} {trigger x : String} :
    x ∈ triggered g trigger ↔ (trigger, x) ∈ g.outputBases ∨ x = trigger ∧ trigger ∈ g.allBases := by
  have houtput : x ∈ (g.outputBases.filter (·.1 = trigger)).map (·.2) ↔ (trigger, x) ∈ g.outputBases := by
    simp only [List.mem_map, List.mem_filter, decide_eq_true_eq]
    constructor
    · rintro ⟨⟨t, y⟩, ⟨hmem, rfl⟩, rfl⟩
      exact hmem
    · exact fun h => ⟨(trigger, x), ⟨h, rfl⟩, rfl⟩
  unfold triggered
  simp only
  split
  · next hall =>
    rw [List.mem_insert_iff, houtput]
    tauto
  · next hall =>
    rw [houtput]
    tauto

theorem edge_mem_ruleOps {baseline candidate : List Package} {rules : List RebuildRule} {consumer provider : String} :
    (∃ current, .edge current consumer provider ∈ rules.flatMap (ruleOps (inventory baseline candidate))) ↔
      RuledOn (baseline ++ candidate) rules consumer provider := by
  simp only [RuledOn, ruleOps, triggerOps, ruleOp, List.mem_flatMap, List.mem_map, mem_triggered, mem_inventory_output,
    mem_inventory_all, Op.edge.injEq]
  constructor
  · rintro ⟨current, rule, hrule, trigger, htrigger, p, hp, -, rfl, rfl⟩
    refine ⟨rule, hrule, rfl, trigger, htrigger, ?_⟩
    rcases hp with ⟨entry, hentry, heq⟩ | ⟨rfl, entry, hentry, heq⟩
    · exact ⟨entry, hentry, (Prod.ext_iff.mp heq).2, .inl (Prod.ext_iff.mp heq).1.symm⟩
    · exact ⟨entry, hentry, heq, .inr heq.symm⟩
  · rintro ⟨rule, hrule, rfl, trigger, htrigger, entry, hentry, rfl, heq⟩
    refine ⟨_, rule, hrule, trigger, htrigger, entry.pkgbase, ?_, rfl, rfl, rfl⟩
    rcases heq with rfl | rfl
    · exact .inl ⟨entry, hentry, rfl⟩
    · exact .inr ⟨rfl, entry, hentry, rfl⟩

/-- The graph has just the edges. -/
theorem mem_reverse_iff {baseline candidate : List Package} {architecture : Architecture} {rules : List RebuildRule}
    (h : Accepts baseline candidate architecture rules) {consumer provider : String} :
    (provider, consumer) ∈
        (Graph.empty.runs (graphOps (ofTarget architecture baseline) (ofTarget architecture candidate) rules)).reverse ↔
      Edge (ofTarget architecture baseline) (ofTarget architecture candidate) rules consumer provider := by
  rw [mem_reverse, Edge, ← edge_mem_ruleOps]
  simp only [Graph.empty, List.not_mem_nil, false_or, graphOps, basesOps, List.mem_append, edge_mem_snapshotOps h.before,
    edge_mem_snapshotOps h.after]
  refine and_congr_right fun _ => ?_
  constructor
  · rintro ⟨current, (⟨-, h⟩ | ⟨-, h⟩) | h⟩
    · exact .inl h
    · exact .inr (.inl h)
    · exact .inr (.inr ⟨current, h⟩)
  · rintro (h | h | ⟨current, h⟩)
    · exact ⟨_, .inl (.inl ⟨rfl, h⟩)⟩
    · exact ⟨_, .inl (.inr ⟨rfl, h⟩)⟩
    · exact ⟨current, .inr h⟩

theorem base_mem_graphOps {baseline candidate : List Package} {rules : List RebuildRule} {snapshot : Snapshot} {entry : Package} :
    .base snapshot entry ∈ graphOps baseline candidate rules ↔
      snapshot = .baseline ∧ entry ∈ baseline ∨ snapshot = .candidate ∧ entry ∈ candidate := by
  have hrules : .base snapshot entry ∉ rules.flatMap (ruleOps (inventory baseline candidate)) := by
    simp [ruleOps, triggerOps, ruleOp]
  simp only [graphOps, basesOps, List.mem_append, base_mem_snapshotOps, hrules, or_false]

/-! ## Orders of the lists -/

/-- Two graphs of the same elements. -/
structure Alike (g g' : Graph) : Prop where
  all : g.allBases.Perm g'.allBases
  current : g.currentBases.Perm g'.currentBases
  output : g.outputBases.Perm g'.outputBases
  reverse : g.reverse.Perm g'.reverse
  dependencies : g.dependencies.Perm g'.dependencies
  findings : g.findings.Perm g'.findings
  relationCount : g.relationCount = g'.relationCount

theorem runs_alike {ops ops' : List Op} (h : ops.Perm ops') : Alike (Graph.empty.runs ops) (Graph.empty.runs ops') := by
  have honce := once_empty.runs ops
  have honce' := once_empty.runs ops'
  constructor
  · refine (List.perm_ext_iff_of_nodup honce.all honce'.all).mpr fun x => ?_
    simp only [mem_allBases, h.mem_iff]
  · refine (List.perm_ext_iff_of_nodup honce.current honce'.current).mpr fun x => ?_
    simp only [mem_currentBases, h.mem_iff]
  · refine (List.perm_ext_iff_of_nodup honce.output honce'.output).mpr fun x => ?_
    simp only [mem_outputBases, h.mem_iff]
  · refine (List.perm_ext_iff_of_nodup honce.reverse honce'.reverse).mpr fun ⟨provider, consumer⟩ => ?_
    simp only [mem_reverse, h.mem_iff]
  · refine (List.perm_ext_iff_of_nodup honce.dependencies honce'.dependencies).mpr fun ⟨consumer, provider⟩ => ?_
    simp only [mem_dependencies, h.mem_iff]
  · rw [runs_findings, runs_findings]
    exact (h.filterMap _).append_left _
  · rw [runs_relationCount, runs_relationCount, (h.map Op.relations).sum_eq]

theorem Alike.within {g g' : Graph} (h : Alike g g') (hw : Within g) : Within g' :=
  ⟨h.relationCount ▸ hw.relations, h.reverse.length_eq ▸ hw.edges⟩

theorem triggered_perm {g g' : Graph} (h : Alike g g') (trigger : String) :
    (triggered g trigger).Perm (triggered g' trigger) := by
  unfold triggered
  simp only [h.all.mem_iff]
  have houtput := (h.output.filter (·.1 = trigger)).map (·.2)
  split
  · exact houtput.insert trigger
  · exact houtput

theorem ruleOps_perm {g g' : Graph} (h : Alike g g') (rule : RebuildRule) : (ruleOps g rule).Perm (ruleOps g' rule) := by
  refine List.Perm.flatMap_left _ fun trigger _ => ?_
  have hop : ruleOp g rule.pkgbase = ruleOp g' rule.pkgbase := by
    funext provider
    simp only [ruleOp, h.current.mem_iff]
  unfold triggerOps
  rw [hop]
  exact (triggered_perm h trigger).map _

theorem foundFor_perm {packages packages' : List Package} (h : packages.Perm packages') (value : String) :
    (foundFor packages value).Perm (foundFor packages' value) := by
  unfold foundFor
  split
  · exact .refl _
  · exact (((h.flatMap_right _).filter _).map _).filter _

theorem noteOps_perm {snapshot : Snapshot} {entry : Package} {value : String} {found found' : List Package}
    (h : found.Perm found') : noteOps snapshot entry value found = noteOps snapshot entry value found' := by
  unfold noteOps
  rw [sorted_congr (h.map (·.name))]

theorem snapshotOps_perm {snapshot : Snapshot} {packages packages' : List Package} (h : packages.Perm packages') :
    (snapshotOps snapshot packages).Perm (snapshotOps snapshot packages') := by
  refine (h.flatMap_right _).append ((h.flatMap_right _).trans (List.Perm.flatMap_left _ fun entry _ => ?_))
  refine (List.Perm.flatMap_left _ fun value _ => ?_).cons _
  unfold relationOps
  rw [noteOps_perm (foundFor_perm h value)]
  exact ((foundFor_perm h value).map _).append_left _

theorem graphOps_perm {baseline baseline' candidate candidate' : List Package} {rules rules' : List RebuildRule}
    (hb : baseline.Perm baseline') (hc : candidate.Perm candidate') (hr : rules.Perm rules') :
    (graphOps baseline candidate rules).Perm (graphOps baseline' candidate' rules') := by
  have hbases : (basesOps baseline candidate).Perm (basesOps baseline' candidate') :=
    (snapshotOps_perm hb).append (snapshotOps_perm hc)
  exact hbases.append ((hr.flatMap_right _).trans (List.Perm.flatMap_left _ fun rule _ => ruleOps_perm (runs_alike hbases) rule))

theorem Listed.perm {packages packages' : List Package} (h : Listed packages) (hp : packages.Perm packages') :
    Listed packages' where
  apart := (hp.map _).nodup_iff.mp h.apart
  provided := fun entry hentry => h.provided entry (hp.mem_iff.mpr hentry)
  related := fun entry hentry => h.related entry (hp.mem_iff.mpr hentry)

theorem Ruled.alike {g g' : Graph} (h : Alike g g') {rule : RebuildRule} (hr : Ruled g rule) : Ruled g' rule := by
  refine ⟨h.all.mem_iff.mp hr.1, hr.2.1, fun trigger htrigger hnone => hr.2.2 trigger htrigger ?_⟩
  have hperm := triggered_perm h trigger
  rw [hnone] at hperm
  exact hperm.eq_nil

theorem Accepts.perm {baseline baseline' candidate candidate' : List Package} {architecture : Architecture}
    {rules rules' : List RebuildRule} (h : Accepts baseline candidate architecture rules) (hb : baseline.Perm baseline')
    (hc : candidate.Perm candidate') (hr : rules.Perm rules') : Accepts baseline' candidate' architecture rules' where
  short := ⟨hb.length_eq ▸ h.short.1, hc.length_eq ▸ h.short.2⟩
  before := h.before.perm (hb.filter _)
  after := h.after.perm (hc.filter _)
  ruled := fun rule hrule => (h.ruled rule (hr.mem_iff.mpr hrule)).alike
    (runs_alike ((snapshotOps_perm (hb.filter _)).append (snapshotOps_perm (hc.filter _))))

/-- A graph of the same elements gives the same plan, but for the order of the findings. -/
theorem assemble_alike (collate : RebuildFinding → RebuildFinding → Bool) (architecture : Architecture) {g g' : Graph}
    (h : Alike g g') (hg : g.reverse.Nodup) {seeds seeds' : List String} (hs : seeds.Perm seeds') (hseeds : seeds.Nodup) :
    assemble collate architecture seeds' g' =
        { assemble collate architecture seeds g with findings := (assemble collate architecture seeds' g').findings } ∧
      (assemble collate architecture seeds' g').findings.Perm (assemble collate architecture seeds g).findings := by
  have hreach := affected_reached hg hseeds
  have hreach' := affected_reached (h.reverse.nodup_iff.mp hg) (hs.nodup_iff.mp hseeds)
  have hmembers : (affected g' seeds').members.Perm (affected g seeds).members := by
    refine (List.perm_ext_iff_of_nodup hreach'.members hreach.members).mpr fun x => ⟨?_, ?_⟩
    · refine hreach'.least {x | x ∈ (affected g seeds).members} (fun x hx => hreach.rooted (hs.mem_iff.mpr hx)) ?_ x
      exact fun p hp c hc => hreach.closed p hp c (h.reverse.mem_iff.mpr hc)
    · refine hreach.least {x | x ∈ (affected g' seeds').members} (fun x hx => hreach'.rooted (hs.mem_iff.mp hx)) ?_ x
      exact fun p hp c hc => hreach'.closed p hp c (h.reverse.mem_iff.mp hc)
  have hcauses : (affected g' seeds').causes.Perm (affected g seeds).causes := by
    refine (List.perm_ext_iff_of_nodup hreach'.causes hreach.causes).mpr fun ⟨c, p⟩ => ?_
    rw [hreach'.cause, hreach.cause, hmembers.mem_iff, h.reverse.mem_iff]
  have hbuild : sorted ((affected g' seeds').members.filter (· ∈ g'.currentBases)) =
      sorted ((affected g seeds).members.filter (· ∈ g.currentBases)) := by
    simp only [← h.current.mem_iff]
    exact sorted_congr (hmembers.filter _)
  have hedges : edgesOf g' = edgesOf g := by
    funext build name
    exact sorted_congr ((((h.dependencies.symm).filter _).map _).filter _)
  have hmember : planMember g' seeds' (affected g' seeds').causes = planMember g seeds (affected g seeds).causes := by
    funext pkgbase
    simp only [planMember, ← hs.mem_iff, ← h.current.mem_iff]
    rw [sorted_congr ((hcauses.filter _).map _)]
  have hfindings : (g'.findings.insertionSort fun a b => collate a b = true).Perm
      (g.findings.insertionSort fun a b => collate a b = true) :=
    (List.perm_insertionSort _ _).trans (h.findings.symm.trans (List.perm_insertionSort _ _).symm)
  refine ⟨?_, hfindings⟩
  simp only [assemble, sorted_congr hs, hmember, sorted_congr hmembers, hbuild, hedges, candidateFindings,
    (hfindings.filter _).length_eq]

/-! ## The order of the findings -/

/-- Sorting keeps the order of what ties. -/
theorem insertionSort_stable {α : Type} {r p : α → α → Prop} [DecidableRel r] (htotal : ∀ a b, r a b ∨ r b a)
    (htrans : ∀ a b c, r a b → r b c → r a c) {l : List α} (h : l.Pairwise fun a b => r b a → p a b) :
    (l.insertionSort r).Pairwise fun a b => r a b ∧ (r b a → p a b) := by
  have hinsert (a : α) (l : List α) (hl : l.Pairwise fun a b => r a b ∧ (r b a → p a b)) (ha : ∀ b ∈ l, r b a → p a b) :
      (l.orderedInsert r a).Pairwise fun a b => r a b ∧ (r b a → p a b) := by
    induction l with
    | nil => simp
    | cons b l ih =>
      rw [List.pairwise_cons] at hl
      by_cases hab : r a b
      · rw [List.orderedInsert_cons_of_le r l hab, List.pairwise_cons, List.pairwise_cons]
        refine ⟨fun c hc => ⟨?_, ha c hc⟩, hl⟩
        rcases List.mem_cons.mp hc with rfl | hc
        · exact hab
        · exact htrans a b c hab (hl.1 c hc).1
      · rw [List.orderedInsert_of_not_le r l hab, List.pairwise_cons]
        refine ⟨fun c hc => ?_, ih hl.2 fun c hc => ha c (List.mem_cons_of_mem _ hc)⟩
        rcases List.mem_cons.mp ((List.perm_orderedInsert r a l).mem_iff.mp hc) with rfl | hc
        · exact ⟨(htotal c b).resolve_left hab, fun h => absurd h hab⟩
        · exact hl.1 c hc
  induction l with
  | nil => exact .nil
  | cons a l ih =>
    rw [List.pairwise_cons] at h
    exact hinsert a _ (ih h.2) fun b hb => h.1 b ((List.perm_insertionSort r l).mem_iff.mp hb)

def valueFindings (snapshot : Snapshot) (packages : List Package) (entry : Package) (value : String) : List RebuildFinding :=
  if (sorted ((foundFor packages value).map (·.name))).length ≠ 1 then
    [⟨snapshot, entry.pkgbase, entry.name, value, sorted ((foundFor packages value).map (·.name))⟩]
  else []

def snapshotFindings (snapshot : Snapshot) (packages : List Package) : List RebuildFinding :=
  packages.flatMap fun entry => (relations entry).flatMap (valueFindings snapshot packages entry)

theorem relationOps_findings (snapshot : Snapshot) (packages : List Package) (entry : Package) (value : String) :
    (relationOps snapshot packages entry value).filterMap Op.finding? = valueFindings snapshot packages entry value := by
  have hedges : ((foundFor packages value).map fun provider =>
      Op.edge (decide (snapshot = .candidate)) entry.pkgbase provider.pkgbase).filterMap Op.finding? = [] := by
    simp [List.filterMap_eq_nil_iff, Op.finding?]
  rw [relationOps, List.filterMap_append, hedges, List.append_nil, noteOps, valueFindings]
  split <;> rfl

theorem snapshotOps_findings (snapshot : Snapshot) (packages : List Package) :
    (snapshotOps snapshot packages).filterMap Op.finding? = snapshotFindings snapshot packages := by
  have hpackages : (packages.flatMap (packageOps snapshot)).filterMap Op.finding? = [] := by
    simp only [List.filterMap_eq_nil_iff, List.mem_flatMap, packageOps, List.mem_cons, List.mem_map]
    rintro op ⟨entry, -, rfl | ⟨name, -, rfl⟩⟩ <;> rfl
  have hrelations (entry : Package) : (relationsOps snapshot packages entry).filterMap Op.finding? =
      (relations entry).flatMap (valueFindings snapshot packages entry) := by
    simp only [relationsOps, List.filterMap_cons, Op.finding?, List.filterMap_flatMap, relationOps_findings]
  simp only [snapshotOps, List.filterMap_append, hpackages, List.nil_append, List.filterMap_flatMap, hrelations,
    snapshotFindings]

theorem graph_findings (baseline candidate : List Package) (rules : List RebuildRule) :
    (Graph.empty.runs (graphOps baseline candidate rules)).findings =
      snapshotFindings .baseline baseline ++ snapshotFindings .candidate candidate := by
  have hrules : (rules.flatMap (ruleOps (inventory baseline candidate))).filterMap Op.finding? = [] := by
    simp only [List.filterMap_eq_nil_iff, List.mem_flatMap]
    rintro op ⟨rule, -, hop⟩
    obtain ⟨current, consumer, provider, rfl⟩ := ruleOps_edges _ rule op hop
    rfl
  rw [runs_findings, graphOps, basesOps, List.filterMap_append, List.filterMap_append, hrules, snapshotOps_findings,
    snapshotOps_findings, List.append_nil]
  rfl

theorem mem_snapshotFindings {snapshot : Snapshot} {packages : List Package} {finding : RebuildFinding}
    (h : finding ∈ snapshotFindings snapshot packages) :
    finding.snapshot = snapshot ∧ ∃ entry ∈ packages, finding = ⟨snapshot, entry.pkgbase, entry.name, finding.relation,
      sorted ((foundFor packages finding.relation).map (·.name))⟩ := by
  obtain ⟨entry, hentry, h⟩ := List.mem_flatMap.mp h
  obtain ⟨value, -, h⟩ := List.mem_flatMap.mp h
  unfold valueFindings at h
  split at h
  · obtain rfl := List.mem_singleton.mp h
    exact ⟨rfl, entry, hentry, rfl⟩
  · cases h

/-- Two findings about one output and one relation are the same. -/
theorem snapshotFindings_apart {snapshot : Snapshot} {packages : List Package} (hlisted : Listed packages)
    {a b : RebuildFinding} (ha : a ∈ snapshotFindings snapshot packages) (hb : b ∈ snapshotFindings snapshot packages)
    (houtput : a.output = b.output) (hrelation : a.relation = b.relation) : a = b := by
  obtain ⟨-, entry, hentry, heq⟩ := mem_snapshotFindings ha
  obtain ⟨-, entry', hentry', heq'⟩ := mem_snapshotFindings hb
  have hname : entry.name = entry'.name := by
    rw [heq, heq'] at houtput
    exact houtput
  have hsame : entry = entry' := List.inj_on_of_nodup_map hlisted.apart hentry hentry' hname
  rw [heq, heq', hsame, hrelation]

/-- The findings about one output come in the order of their relations. -/
theorem snapshotFindings_pairwise {snapshot : Snapshot} {packages : List Package} (hlisted : Listed packages) :
    (snapshotFindings snapshot packages).Pairwise fun a b => a.output = b.output → UnitsLE a.relation b.relation := by
  refine List.pairwise_flatMap.mpr ⟨fun entry _ => List.pairwise_flatMap.mpr ⟨fun value _ => ?_, ?_⟩, ?_⟩
  · unfold valueFindings
    split <;> simp
  · refine (sorted_pairwise _).imp ?_
    intro value value' hle a ha b hb _
    unfold valueFindings at ha hb
    split at ha
    · split at hb
      · rw [List.mem_singleton.mp ha, List.mem_singleton.mp hb]
        exact hle
      · cases hb
    · cases ha
  · refine (List.pairwise_map.mp hlisted.apart).imp ?_
    intro entry entry' hne a ha b hb heq
    have houtput {e : Package} {f : RebuildFinding} (hf : f ∈ (relations e).flatMap (valueFindings snapshot packages e)) :
        f.output = e.name := by
      obtain ⟨value, -, hf⟩ := List.mem_flatMap.mp hf
      unfold valueFindings at hf
      split at hf
      · rw [List.mem_singleton.mp hf]
      · cases hf
    exact absurd ((houtput ha).symm.trans (heq.trans (houtput hb))) hne

theorem findings_pairwise {baseline candidate : List Package} (hb : Listed baseline) (hc : Listed candidate) :
    (snapshotFindings .baseline baseline ++ snapshotFindings .candidate candidate).Pairwise fun a b =>
      a.snapshot = b.snapshot ∧ a.output = b.output → UnitsLE a.relation b.relation := by
  refine List.pairwise_append.mpr ⟨(snapshotFindings_pairwise hb).imp fun h heq => h heq.2,
    (snapshotFindings_pairwise hc).imp fun h heq => h heq.2, ?_⟩
  intro a ha b hb heq
  have hsnapshot := (mem_snapshotFindings ha).1.symm.trans (heq.1.trans (mem_snapshotFindings hb).1)
  cases hsnapshot

def isNameStart (c : Char) : Bool := ('a' ≤ c && c ≤ 'z') || c.isDigit

/-- `[a-z0-9][a-z0-9@._+-]{0,63}`, what the records' reader takes for a name. -/
def isImportName (s : String) : Bool :=
  match s.toList with
  | [] => false
  | c :: cs => isNameStart c && cs.all (fun c => isNameStart c || c ∈ ['@', '.', '_', '+', '-']) && cs.length ≤ 63

/-- What `localeCompare` does: it orders the findings, and tells apart what is about different names. -/
structure Collates (collate : RebuildFinding → RebuildFinding → Bool) : Prop where
  total : ∀ a b, collate a b = true ∨ collate b a = true
  trans : ∀ a b c, collate a b = true → collate b c = true → collate a c = true
  apart : ∀ a b, isImportName a.pkgbase = true → isImportName a.output = true → isImportName b.pkgbase = true →
    isImportName b.output = true → collate a b = true → collate b a = true → a.snapshot = b.snapshot ∧ a.output = b.output

def Named (packages : List Package) : Prop :=
  ∀ entry ∈ packages, isImportName entry.pkgbase = true ∧ isImportName entry.name = true

theorem mem_graph_findings {baseline candidate : List Package} {finding : RebuildFinding}
    (h : finding ∈ snapshotFindings .baseline baseline ++ snapshotFindings .candidate candidate)
    (hnamed : Named (baseline ++ candidate)) :
    isImportName finding.pkgbase = true ∧ isImportName finding.output = true := by
  rcases List.mem_append.mp h with h | h
  · obtain ⟨-, entry, hentry, heq⟩ := mem_snapshotFindings h
    rw [heq]
    exact hnamed entry (List.mem_append_left _ hentry)
  · obtain ⟨-, entry, hentry, heq⟩ := mem_snapshotFindings h
    rw [heq]
    exact hnamed entry (List.mem_append_right _ hentry)

/-- The findings come in one order, whatever the order of the packages. -/
theorem findings_sorted {collate : RebuildFinding → RebuildFinding → Bool} (hcollate : Collates collate)
    {baseline baseline' candidate candidate' : List Package} (hb : Listed baseline) (hc : Listed candidate)
    (hperm : baseline.Perm baseline') (hperm' : candidate.Perm candidate') (hnamed : Named (baseline ++ candidate))
    (hfindings : (snapshotFindings .baseline baseline' ++ snapshotFindings .candidate candidate').Perm
      (snapshotFindings .baseline baseline ++ snapshotFindings .candidate candidate)) :
    (snapshotFindings .baseline baseline' ++ snapshotFindings .candidate candidate').insertionSort
        (fun a b => collate a b = true) =
      (snapshotFindings .baseline baseline ++ snapshotFindings .candidate candidate).insertionSort
        (fun a b => collate a b = true) := by
  have hnamed' : Named (baseline' ++ candidate') := fun entry hentry =>
    hnamed entry ((hperm.append hperm').mem_iff.mpr hentry)
  have hsorted {b c : List Package} (hb : Listed b) (hc : Listed c) (hn : Named (b ++ c)) :
      ((snapshotFindings .baseline b ++ snapshotFindings .candidate c).insertionSort fun a b => collate a b = true).Pairwise
        fun x y => collate x y = true ∧ (collate y x = true → collate x y = true → UnitsLE x.relation y.relation) := by
    refine insertionSort_stable hcollate.total hcollate.trans (List.Pairwise.imp_of_mem ?_ (findings_pairwise hb hc))
    intro x y hx hy h hyx hxy
    have hnx := mem_graph_findings hx hn
    have hny := mem_graph_findings hy hn
    exact h (hcollate.apart x y hnx.1 hnx.2 hny.1 hny.2 hxy hyx)
  have hall := (List.perm_insertionSort (fun a b => collate a b = true) _).trans
    (hfindings.trans (List.perm_insertionSort (fun a b => collate a b = true) _).symm)
  refine hall.eq_of_pairwise ?_ (hsorted (hb.perm hperm) (hc.perm hperm') hnamed') (hsorted hb hc hnamed)
  intro x y hx hy hxy hyx
  have hx' := hall.mem_iff.mp hx
  rw [(List.perm_insertionSort _ _).mem_iff] at hx' hy
  have hnx := mem_graph_findings hx' hnamed
  have hny := mem_graph_findings hy hnamed
  obtain ⟨hsnapshot, houtput⟩ := hcollate.apart x y hnx.1 hnx.2 hny.1 hny.2 hxy.1 hyx.1
  have hrelation : x.relation = y.relation :=
    (hxy.2 hyx.1 hxy.1).antisymm (hyx.2 hxy.1 hyx.1)
  rcases List.mem_append.mp hx' with hx' | hx' <;> rcases List.mem_append.mp hy with hy | hy
  · exact snapshotFindings_apart hb hx' hy houtput hrelation
  · have := (mem_snapshotFindings hx').1.symm.trans (hsnapshot.trans (mem_snapshotFindings hy).1)
    cases this
  · have := (mem_snapshotFindings hx').1.symm.trans (hsnapshot.trans (mem_snapshotFindings hy).1)
    cases this
  · exact snapshotFindings_apart hc hx' hy houtput hrelation

/-! ## Plans -/

theorem planRebuilds_ok {collate : RebuildFinding → RebuildFinding → Bool} {baseline candidate : List Package}
    {architecture : Architecture} {seeds : List String} {rules : List RebuildRule} {plan : Plan} :
    planRebuilds collate baseline candidate architecture seeds rules = .ok plan ↔
      (seeds ≠ [] ∧ seeds.length ≤ 100000 ∧ seeds.Nodup) ∧ Accepts baseline candidate architecture rules ∧
      ∃ g, g = Graph.empty.runs (graphOps (ofTarget architecture baseline) (ofTarget architecture candidate) rules) ∧
        Within g ∧ (∀ seed ∈ seeds, seed ∈ g.allBases) ∧ plan = assemble collate architecture seeds g := by
  unfold planRebuilds
  by_cases hseeds : seeds = [] ∨ seeds.length > 100000 ∨ ¬seeds.Nodup
  · rw [if_pos hseeds]
    constructor
    · intro h
      cases h
    · rintro ⟨⟨hne, hlength, hnodup⟩, -⟩
      rcases hseeds with h | h | h
      · exact absurd h hne
      · omega
      · exact absurd hnodup h
  · rw [if_neg hseeds]
    push Not at hseeds
    constructor
    · intro h
      obtain ⟨g, hg, h⟩ := Fallible.bind_ok.mp h
      obtain ⟨haccepts, heq, hw⟩ := (buildGraph_does baseline candidate architecture rules g).mp hg
      refine ⟨hseeds, haccepts, g, heq, hw, ?_⟩
      cases hfind : seeds.find? (· ∉ g.allBases) with
      | some seed =>
        rw [hfind] at h
        cases h
      | none =>
        rw [hfind] at h
        cases h
        exact ⟨by simpa [List.find?_eq_none] using hfind, rfl⟩
    · rintro ⟨-, haccepts, g, heq, hw, hall, rfl⟩
      refine Fallible.bind_ok.mpr ⟨g, (buildGraph_does baseline candidate architecture rules g).mpr ⟨haccepts, heq, hw⟩, ?_⟩
      have hfind : seeds.find? (· ∉ g.allBases) = none := by simpa [List.find?_eq_none] using hall
      rw [hfind]

def Plan.bases (plan : Plan) : List String := plan.members.map (·.pkgbase)

/-- What is rebuilt is the least that has the changed bases and all consumers of what it has; each
base is there for the planned bases that it is a consumer of; and no order of the lists matters. -/
theorem planRebuilds_least {collate : RebuildFinding → RebuildFinding → Bool} {baseline candidate : List Package}
    {architecture : Architecture} {seeds : List String} {rules : List RebuildRule} {plan : Plan}
    (h : planRebuilds collate baseline candidate architecture seeds rules = .ok plan) :
    IsLeast {S : Set String | (∀ seed ∈ seeds, seed ∈ S) ∧ ∀ provider ∈ S, ∀ consumer,
      Edge (ofTarget architecture baseline) (ofTarget architecture candidate) rules consumer provider → consumer ∈ S}
      {base | base ∈ plan.bases} ∧
    plan.bases.Nodup ∧
    (∀ member ∈ plan.members, member.affectedBy.Nodup ∧ ∀ provider, provider ∈ member.affectedBy ↔
      provider ∈ plan.bases ∧
        Edge (ofTarget architecture baseline) (ofTarget architecture candidate) rules member.pkgbase provider) ∧
    ∀ baseline' candidate' seeds' rules', baseline.Perm baseline' → candidate.Perm candidate' → seeds.Perm seeds' →
      rules.Perm rules' →
      ∃ plan', planRebuilds collate baseline' candidate' architecture seeds' rules' = .ok plan' ∧
        plan' = { plan with findings := plan'.findings } ∧ plan'.findings.Perm plan.findings ∧
        (Collates collate → Named (baseline ++ candidate) → plan' = plan) := by
  obtain ⟨⟨hne, hlength, hnodup⟩, haccepts, g, hg, hw, hall, rfl⟩ := planRebuilds_ok.mp h
  have honce : g.reverse.Nodup := by
    rw [hg]
    exact (once_empty.runs _).reverse
  have hedge {consumer provider : String} : (provider, consumer) ∈ g.reverse ↔
      Edge (ofTarget architecture baseline) (ofTarget architecture candidate) rules consumer provider := by
    rw [hg]
    exact mem_reverse_iff haccepts
  have hreach := affected_reached honce hnodup
  have hbases : (assemble collate architecture seeds g).bases = sorted (affected g seeds).members := by
    simp only [Plan.bases, assemble, List.map_map]
    exact List.map_id _
  have hmem (x : String) : x ∈ (assemble collate architecture seeds g).bases ↔ x ∈ (affected g seeds).members := by
    rw [hbases, mem_sorted]
  refine ⟨⟨⟨?_, ?_⟩, ?_⟩, ?_, ?_, ?_⟩
  · exact fun seed hseed => (hmem seed).mpr (hreach.rooted hseed)
  · intro provider hprovider consumer hc
    exact (hmem consumer).mpr (hreach.closed provider ((hmem provider).mp hprovider) consumer (hedge.mpr hc))
  · rintro S ⟨hS, hclosed⟩ x hx
    exact hreach.least S hS (fun p hp c hc => hclosed p hp c (hedge.mp hc)) x ((hmem x).mp hx)
  · rw [hbases]
    exact (sorted_perm _).nodup_iff.mpr hreach.members
  · intro member hmember
    obtain ⟨base, hbase, rfl⟩ := List.mem_map.mp hmember
    refine ⟨?_, fun provider => ?_⟩
    · refine (sorted_perm _).nodup_iff.mpr ((hreach.causes.filter _).map_on ?_)
      rintro ⟨c, p⟩ hx ⟨c', p'⟩ hy heq
      rw [List.mem_filter, decide_eq_true_eq] at hx hy
      exact Prod.ext (hx.2.trans hy.2.symm) heq
    · rw [hmem, ← hedge, ← hreach.cause]
      simp only [planMember, mem_sorted, List.mem_map, List.mem_filter, decide_eq_true_eq]
      constructor
      · rintro ⟨⟨c, p⟩, ⟨hcause, rfl⟩, rfl⟩
        exact hcause
      · exact fun hcause => ⟨(base, provider), ⟨hcause, rfl⟩, rfl⟩
  · intro baseline' candidate' seeds' rules' hb hc hs hr
    have hops := graphOps_perm (hb.filter fun entry => decide (entry.target = architecture))
      (hc.filter fun entry => decide (entry.target = architecture)) hr
    have halike := runs_alike hops
    rw [show Graph.empty.runs (graphOps (baseline.filter _) (candidate.filter _) rules) = g from hg.symm] at halike
    obtain ⟨hsame, hperm⟩ := assemble_alike collate architecture halike honce hs hnodup
    refine ⟨_, planRebuilds_ok.mpr ⟨⟨?_, hs.length_eq ▸ hlength, hs.nodup_iff.mp hnodup⟩, haccepts.perm hb hc hr, _, rfl,
      halike.within hw, ?_, rfl⟩, hsame, hperm, ?_⟩
    · rintro rfl
      exact hne hs.eq_nil
    · exact fun seed hseed => halike.all.mem_iff.mp (hall seed (hs.mem_iff.mpr hseed))
    · intro hcollate hnamed
      have hfindings : (assemble collate architecture seeds' (Graph.empty.runs
          (graphOps (ofTarget architecture baseline') (ofTarget architecture candidate') rules'))).findings =
          (assemble collate architecture seeds g).findings := by
        have hnamed' : Named (ofTarget architecture baseline ++ ofTarget architecture candidate) := by
          intro entry hentry
          refine hnamed entry ?_
          rcases List.mem_append.mp hentry with hentry | hentry
          · exact List.mem_append_left _ (List.mem_filter.mp hentry).1
          · exact List.mem_append_right _ (List.mem_filter.mp hentry).1
        have hlist := halike.findings.symm
        rw [hg] at hlist ⊢
        simp only [assemble]
        rw [graph_findings, graph_findings] at hlist ⊢
        exact findings_sorted hcollate haccepts.before haccepts.after (hb.filter _) (hc.filter _) hnamed' hlist
      exact hsame.trans (congrArg (fun f => { assemble collate architecture seeds g with findings := f }) hfindings)

/-- Findings by their snapshot and output. -/
def byOutput (a b : RebuildFinding) : Bool :=
  decide (KeyLE (units a.snapshot.text ++ units a.output) (units b.snapshot.text ++ units b.output))

theorem byOutput_collates : Collates byOutput where
  total := fun a b => by
    simp only [byOutput, decide_eq_true_eq]
    exact le_total (α := List Nat) _ _
  trans := fun a b c => by
    simp only [byOutput, decide_eq_true_eq]
    exact le_trans (α := List Nat)
  apart := fun a b _ _ _ _ hab hba => by
    simp only [byOutput, decide_eq_true_eq] at hab hba
    have heq := List.map_injective_iff.mpr (fun _ _ => UInt16.toNat_inj.mp) (le_antisymm (α := List Nat) hab hba)
    have htext : a.snapshot = b.snapshot := by
      have hhead := congrArg List.head? heq
      have hbaseline : (units Snapshot.baseline.text).head? = some 98 := by decide +kernel
      have hcandidate : (units Snapshot.candidate.text).head? = some 99 := by decide +kernel
      rw [List.head?_append, List.head?_append] at hhead
      cases ha : a.snapshot <;> cases hb : b.snapshot <;> simp [ha, hb, hbaseline, hcandidate] at hhead ⊢
    rw [htext] at heq
    exact ⟨htext, units_injective (List.append_cancel_left heq)⟩

/-- `app` is linked with `library`, which it finds in both snapshots, and `tool` is rebuilt on `app`. -/
def libraryPackages : List Package :=
  [⟨"library", "library", "1-1", .x86_64, [], [], [], []⟩, ⟨"app", "app", "1-1", .x86_64, ["library>=1", "ghost"], [], [], []⟩,
    ⟨"tool", "tool", "1-1", .x86_64, [], [], [], []⟩]

/-- The plan of a new `library`, in either order of the packages. -/
theorem planRebuilds_library : ∃ plan,
    planRebuilds byOutput libraryPackages libraryPackages .x86_64 ["library"] [⟨"tool", ["app"]⟩] = .ok plan ∧
      plan.bases = ["app", "library", "tool"] ∧
      planRebuilds byOutput libraryPackages.reverse libraryPackages.reverse .x86_64 ["library"] [⟨"tool", ["app"]⟩] =
        .ok plan := by
  have hbases : (planRebuilds byOutput libraryPackages libraryPackages .x86_64 ["library"] [⟨"tool", ["app"]⟩]).toOption.map
      Plan.bases = some ["app", "library", "tool"] := by decide +kernel
  cases hplan : planRebuilds byOutput libraryPackages libraryPackages .x86_64 ["library"] [⟨"tool", ["app"]⟩] with
  | error e =>
    rw [hplan] at hbases
    cases hbases
  | ok plan =>
    rw [hplan] at hbases
    obtain ⟨-, -, -, horder⟩ := planRebuilds_least hplan
    obtain ⟨plan', hplan', -, -, hsame⟩ := horder libraryPackages.reverse libraryPackages.reverse ["library"]
      [⟨"tool", ["app"]⟩] (List.reverse_perm _).symm (List.reverse_perm _).symm (.refl _) (.refl _)
    have hnamed : Named (libraryPackages ++ libraryPackages) := by
      unfold Named
      decide +kernel
    rw [hsame byOutput_collates hnamed] at hplan'
    exact ⟨plan, rfl, Option.some.inj hbases, hplan'⟩

end Omapkg.Server.Rebuild
