import Mathlib.Data.List.Sort
import Mathlib.Data.List.TakeWhile
/-!
# Sorting by two orders

A sort that keeps the order of what its comparison does not tell apart: a list is what the sort
makes of every permutation of it just if the comparison tells its elements apart, in the list's order.
-/

namespace Sorting

variable {α : Type} {r s : α → α → Prop} [DecidableRel r]

/-- What is inserted comes before what it may come before. -/
theorem before_orderedInsert {x y : α} {l : List α} (hx : x ∈ l) (h : r y x) : [y, x].Sublist (l.orderedInsert r y) := by
  rw [List.orderedInsert_eq_take_drop]
  rw [← List.takeWhile_append_dropWhile (p := fun b => decide ¬r y b) (l := l), List.mem_append] at hx
  have hdrop : x ∈ l.dropWhile fun b => decide ¬r y b := by
    refine hx.resolve_left fun htake => ?_
    have := List.mem_takeWhile_imp htake
    simp [h] at this
  exact List.sublist_append_of_sublist_right ((List.singleton_sublist.mpr hdrop).cons_cons y)

theorem insertionSort_perms_iff [Std.Total r] [IsTrans α r] {l : List α} (hl : l.Pairwise s)
    (hs : ∀ a b, s a b → ¬s b a) :
    (∀ m : List α, m.Perm l → m.insertionSort r = l) ↔ l.Pairwise fun a b => r a b ∧ ¬r b a := by
  constructor
  · intro h
    rw [List.pairwise_iff_forall_sublist] at hl ⊢
    intro x y hxy
    have hx : x ∈ l := hxy.subset (by simp)
    have hy : y ∈ l := hxy.subset (by simp)
    have hback : ¬r y x := by
      intro hyx
      -- the sort of the permutation that starts with `y` leaves `y` before `x`
      classical
      have hne : x ≠ y := by
        rintro rfl
        exact hs x x (hl hxy) (hl hxy)
      have hsort := h (y :: l.erase y) (List.perm_cons_erase hy).symm
      have hmem : x ∈ (l.erase y).insertionSort r := (List.mem_insertionSort r).mpr ((List.mem_erase_of_ne hne).mpr hx)
      have hyxl : [y, x].Sublist l := hsort ▸ before_orderedInsert hmem hyx
      exact hs x y (hl hxy) (hl hyxl)
    exact ⟨(Std.Total.total x y).resolve_right hback, hback⟩
  · intro h m hm
    have hanti : ∀ a ∈ l, ∀ b ∈ l, r a b → r b a → a = b := by
      intro a ha b hb
      refine List.Pairwise.forall_of_forall_of_flip (R := fun a b => r a b → r b a → a = b) (fun a _ _ _ => rfl) (h.imp ?_)
        (h.imp ?_) ha hb
      · exact fun hab _ hba => absurd hba hab.2
      · exact fun hab hba _ => absurd hba hab.2
    have hperm := (List.perm_insertionSort r m).trans hm
    refine hperm.eq_of_pairwise (fun a b ha hb => hanti a (hperm.subset ha) b hb) (List.pairwise_insertionSort r m) ?_
    exact h.imp And.left

end Sorting
