import Mathlib.Data.List.Nodup
import Mathlib.Data.List.Perm.Subperm
import Mathlib.Logic.Relation
/-!
# Components of a graph

Two places are in one component if each reaches the other. A depth-first search
leaves the last place of a component after all that the component reaches; so
whoever takes the places in the reverse of that order, each with all that is
left and reaches it, takes one component at a time, and those that depend on a
component before it.
-/

namespace Omapkg.Components

open Relation

section
variable {α : Type} {next : α → List α}

def Reach (next : α → List α) : α → α → Prop := ReflTransGen fun a b => b ∈ next a

def Mutual (next : α → List α) (a b : α) : Prop := Reach next a b ∧ Reach next b a

theorem Mutual.symm {a b : α} (h : Mutual next a b) : Mutual next b a := ⟨h.2, h.1⟩

theorem Mutual.trans {a b c : α} (h : Mutual next a b) (h' : Mutual next b c) : Mutual next a c :=
  ⟨ReflTransGen.trans h.1 h'.1, ReflTransGen.trans h'.2 h.2⟩

theorem Reach.closed {P : α → Prop} (h : ∀ a, P a → ∀ b ∈ next a, P b) {a b : α} (hab : Reach next a b) (ha : P a) :
    P b := by
  induction hab with
  | refl => exact ha
  | tail _ hstep ih => exact h _ ih _ hstep

theorem Reach.closed_back {P : α → Prop} (h : ∀ a b, b ∈ next a → P b → P a) {a b : α} (hab : Reach next a b) (hb : P b) :
    P a := by
  induction hab using ReflTransGen.head_induction_on with
  | refl => exact hb
  | head hstep _ ih => exact h _ _ hstep ih

variable [DecidableEq α]

/-! ## The order in which places are left -/

/-- What the component of a left place reaches was left before it was; or a place of
the component is still open. -/
structure Finishing (next : α → List α) (finished opened : List α) : Prop where
  nodup : (finished ++ opened).Nodup
  last : ∀ u ∈ finished, ∀ v, Reach next u v → (∃ w ∈ opened, Mutual next u w) ∨
    v ∈ finished ∧ ∃ w ∈ finished, Mutual next u w ∧ finished.idxOf v ≤ finished.idxOf w

omit [DecidableEq α] in
theorem nodup_move {x : α} {finished opened : List α} (h : (finished ++ x :: opened).Nodup) :
    (finished ++ [x] ++ opened).Nodup := by
  rwa [List.append_assoc]

theorem Finishing.enter {x : α} {finished opened : List α} (h : Finishing next finished opened)
    (hx : x ∉ finished ++ opened) : Finishing next finished (x :: opened) := by
  refine ⟨List.nodup_middle.mpr (List.nodup_cons.mpr ⟨hx, h.nodup⟩), ?_⟩
  intro u hu v huv
  refine (h.last u hu v huv).imp_left ?_
  rintro ⟨w, hw, hm⟩
  exact ⟨w, List.mem_cons_of_mem _ hw, hm⟩

/-- The last open place is left when all that follows it was entered. -/
theorem Finishing.leave {x : α} {finished opened : List α} (h : Finishing next finished (x :: opened))
    (hfollowed : ∀ u, u = x ∨ u ∈ finished → ∀ w ∈ next u, w ∈ finished ∨ w ∈ x :: opened)
    (habove : ∀ y ∈ opened, Reach next y x) : Finishing next (finished ++ [x]) opened := by
  have hnot : x ∉ finished := by
    have := List.nodup_middle.mp h.nodup
    rw [List.nodup_cons, List.mem_append] at this
    exact fun hx => this.1 (.inl hx)
  have hlast (v : α) (hv : v ∈ finished ++ [x]) : (finished ++ [x]).idxOf v ≤ (finished ++ [x]).idxOf x := by
    rw [List.idxOf_append_of_notMem hnot]
    have := List.idxOf_lt_length_iff.mpr hv
    simp only [List.length_append, List.length_singleton] at this
    simp only [List.idxOf_cons_self]
    omega
  -- What is reached from `x` was left, unless a place of its component is open.
  have hleft (hopen : ¬∃ w ∈ opened, Mutual next x w) (v : α) (hv : Reach next x v) : v ∈ finished ++ [x] := by
    have hboth : v ∈ finished ++ [x] ∧ Reach next x v := by
      refine Reach.closed (P := fun v => v ∈ finished ++ [x] ∧ Reach next x v) ?_ hv ⟨by simp, .refl⟩
      rintro a ⟨ha, hxa⟩ b hb
      have hxb : Reach next x b := ReflTransGen.tail hxa hb
      refine ⟨?_, hxb⟩
      have ha' : a = x ∨ a ∈ finished := by simpa [or_comm] using ha
      rcases hfollowed a ha' b hb with hb | hb
      · exact List.mem_append_left _ hb
      · rcases List.mem_cons.mp hb with rfl | hb
        · simp
        · exact absurd ⟨b, hb, hxb, habove b hb⟩ hopen
    exact hboth.1
  have hx (u : α) (hux : Mutual next u x) (v : α) (huv : Reach next u v) : (∃ w ∈ opened, Mutual next u w) ∨
      v ∈ finished ++ [x] ∧ ∃ w ∈ finished ++ [x], Mutual next u w ∧ (finished ++ [x]).idxOf v ≤ (finished ++ [x]).idxOf w := by
    by_cases hopen : ∃ w ∈ opened, Mutual next x w
    · obtain ⟨w, hw, hm⟩ := hopen
      exact .inl ⟨w, hw, hux.trans hm⟩
    · have hv := hleft hopen v (ReflTransGen.trans hux.2 huv)
      exact .inr ⟨hv, x, by simp, hux, hlast v hv⟩
  refine ⟨nodup_move h.nodup, ?_⟩
  intro u hu v huv
  rcases List.mem_append.mp hu with hu | hu
  · rcases h.last u hu v huv with ⟨w, hw, hm⟩ | ⟨hv, w, hw, hm, hle⟩
    · rcases List.mem_cons.mp hw with rfl | hw
      · exact hx u hm v huv
      · exact .inl ⟨w, hw, hm⟩
    · refine .inr ⟨List.mem_append_left _ hv, w, List.mem_append_left _ hw, hm, ?_⟩
      rwa [List.idxOf_append_of_mem hv, List.idxOf_append_of_mem hw]
  · obtain rfl := List.mem_singleton.mp hu
    exact hx u ⟨.refl, .refl⟩ v huv

/-! ## One component at a time -/

/-- Components that were taken, with all that reaches them. -/
structure Gathered (next : α → List α) (nodes seen : List α) (groups : List (List α)) : Prop where
  covers : ∀ a, a ∈ seen ↔ a ∈ groups.flatten
  nodup : groups.flatten.Nodup
  closed : ∀ a ∈ nodes, ∀ b ∈ next a, b ∈ seen → a ∈ seen
  component : ∀ group ∈ groups, ∃ r ∈ group, ∀ a, a ∈ group ↔ a ∈ nodes ∧ Mutual next r a
  order : groups.Pairwise fun earlier later => ∀ provider ∈ earlier, ∀ consumer ∈ later, provider ∉ next consumer

omit [DecidableEq α] in
theorem gathered_nil (next : α → List α) (nodes : List α) : Gathered next nodes [] [] where
  covers := by simp
  nodup := by simp
  closed := by simp
  component := by simp
  order := .nil

omit [DecidableEq α] in
/-- What reaches a place of a set that no place outside leads to is in it. -/
theorem reach_back {nodes : List α} {P : α → Prop} (hnodes : ∀ a ∈ nodes, ∀ b ∈ next a, b ∈ nodes)
    (h : ∀ a ∈ nodes, ∀ b ∈ next a, P b → P a) {a b : α} (hab : Reach next a b) (ha : a ∈ nodes) (hb : P b) : P a := by
  refine Reach.closed_back (P := fun a => a ∈ nodes → P a) ?_ hab (fun _ => hb) ha
  exact fun a b hab hb ha => h a ha b hab (hb (hnodes a ha b hab))

/-- A place, and what is left and reaches it, are a component, where all later places were taken. -/
theorem Gathered.add {nodes seen seen' group done rest : List α} {groups : List (List α)} {r : α}
    (h : Gathered next nodes seen groups) (hnodes : ∀ a ∈ nodes, ∀ b ∈ next a, b ∈ nodes)
    (horder : Finishing next (rest ++ r :: done) []) (hsame : ∀ a, a ∈ rest ++ r :: done ↔ a ∈ nodes)
    (hdone : done ⊆ seen) (hr : r ∉ seen) (hgroup : group.Nodup) (hrgroup : r ∈ group)
    (hreach : ∀ a ∈ group, a ∈ nodes ∧ a ∉ seen ∧ Reach next a r)
    (hclosed : ∀ a ∈ nodes, ∀ b ∈ next a, b ∈ group → a ∈ seen ∨ a ∈ group)
    (hseen : ∀ a, a ∈ seen' ↔ a ∈ seen ∨ a ∈ group) : Gathered next nodes seen' (groups ++ [group]) := by
  have hback {a b : α} (hab : Reach next a b) (ha : a ∈ nodes) (hb : b ∈ seen) : a ∈ seen :=
    reach_back hnodes (P := (· ∈ seen)) h.closed hab ha hb
  have hrnodes : r ∈ nodes := (hreach r hrgroup).1
  have hmutual (a : α) (ha : a ∈ group) : Mutual next a r := by
    obtain ⟨hanodes, hnot, har⟩ := hreach a ha
    have hlast := horder.last a ((hsame a).mpr hanodes) r har
    obtain ⟨w, hw, -⟩ | ⟨-, w, hw, hm, hle⟩ := hlast
    · cases hw
    · have hnodup := horder.nodup
      rw [List.append_nil, List.nodup_append] at hnodup
      have hrrest : r ∉ rest := fun hmem => hnodup.2.2 r hmem r List.mem_cons_self rfl
      rw [List.idxOf_append_of_notMem hrrest, List.idxOf_cons_self] at hle
      rcases List.mem_append.mp hw with hw | hw
      · rw [List.idxOf_append_of_mem hw] at hle
        have := List.idxOf_lt_length_iff.mpr hw
        omega
      · rcases List.mem_cons.mp hw with rfl | hw
        · exact hm
        · exact absurd (hback hm.1 hanodes (hdone hw)) hnot
  refine ⟨?_, ?_, ?_, ?_, ?_⟩
  · intro a
    rw [hseen, h.covers, List.flatten_append, List.mem_append]
    simp
  · rw [List.flatten_append, List.nodup_append]
    refine ⟨h.nodup, by simpa using hgroup, ?_⟩
    rintro a ha b hb rfl
    have hb' : a ∈ group := by simpa using hb
    exact (hreach a hb').2.1 ((h.covers a).mpr ha)
  · intro a ha b hb hbseen
    rw [hseen] at hbseen ⊢
    rcases hbseen with hbseen | hbseen
    · exact .inl (h.closed a ha b hb hbseen)
    · exact hclosed a ha b hb hbseen
  · intro group' hgroup'
    rcases List.mem_append.mp hgroup' with hgroup' | hgroup'
    · exact h.component group' hgroup'
    · obtain rfl := List.mem_singleton.mp hgroup'
      refine ⟨r, hrgroup, fun a => ⟨fun ha => ⟨(hreach a ha).1, (hmutual a ha).symm⟩, ?_⟩⟩
      rintro ⟨hanodes, hra, har⟩
      have hmem := reach_back hnodes (P := fun a => a ∈ seen ∨ a ∈ group') (fun a ha b hb hP => by
        rcases hP with hP | hP
        · exact .inl (h.closed a ha b hb hP)
        · exact hclosed a ha b hb hP) har hanodes (.inr hrgroup)
      exact hmem.resolve_left fun hseen => hr (hback hra hrnodes hseen)
  · refine List.pairwise_append.mpr ⟨h.order, by simp, ?_⟩
    intro earlier hearlier later hlater provider hprovider consumer hconsumer hedge
    obtain rfl := List.mem_singleton.mp hlater
    have hseenp : provider ∈ seen := (h.covers provider).mpr (List.mem_flatten.mpr ⟨earlier, hearlier, hprovider⟩)
    exact (hreach consumer hconsumer).2.1 (h.closed consumer (hreach consumer hconsumer).1 provider hedge hseenp)

end

end Omapkg.Components
