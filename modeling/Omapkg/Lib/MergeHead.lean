import Mathlib.Data.List.Nodup
/-!
# The head of a merge sort

What comes before each of the others comes to the head, however those compare.
-/

namespace MergeHead

open List

theorem head_merge_left {α : Type} {le : α → α → Bool} {x : α} {l r : List α} (hl : l.head? = some x)
    (hr : ∀ y, r.head? = some y → y = x ∨ le x y = true) : (merge l r le).head? = some x := by
  cases l with
  | nil => cases hl
  | cons a l =>
    obtain rfl := Option.some.inj hl
    cases r with
    | nil => simp
    | cons y r =>
      rw [cons_merge_cons]
      rcases hr y rfl with rfl | hle
      · split <;> rfl
      · rw [if_pos hle]
        rfl

theorem head_merge_right {α : Type} {le : α → α → Bool} {x : α} {l r : List α} (hr : r.head? = some x)
    (hl : ∀ y, l.head? = some y → y = x ∨ le y x = false) : (merge l r le).head? = some x := by
  cases r with
  | nil => cases hr
  | cons b r =>
    obtain rfl := Option.some.inj hr
    cases l with
    | nil => simp
    | cons y l =>
      rw [cons_merge_cons]
      rcases hl y rfl with rfl | hle
      · split <;> rfl
      · rw [if_neg (by simp [hle])]
        rfl

theorem mergeSort_halves {α : Type} {le : α → α → Bool} {l : List α} (h : 2 ≤ l.length) :
    l.mergeSort le = merge ((l.take ((l.length + 1) / 2)).mergeSort le) ((l.drop ((l.length + 1) / 2)).mergeSort le) le := by
  match l, h with
  | a :: b :: rest, _ =>
    rw [mergeSort]
    simp only [MergeSort.Internal.splitInTwo_fst, MergeSort.Internal.splitInTwo_snd]

/-- What precedes each of the others comes to the head, however those compare. -/
theorem head_mergeSort {α : Type} {le : α → α → Bool} {x : α} {l : List α} (hx : x ∈ l)
    (h : ∀ y ∈ l, y = x ∨ le x y = true ∧ le y x = false) : (l.mergeSort le).head? = some x := by
  induction hn : l.length using Nat.strongRecOn generalizing l with
  | ind n ih =>
    by_cases htwo : 2 ≤ l.length
    · rw [mergeSort_halves htwo]
      have hhead : ∀ {part : List α}, part.Sublist l → part.length < l.length → x ∈ part →
          (part.mergeSort le).head? = some x :=
        fun hpart hshort hmem => ih _ (hn ▸ hshort) hmem (fun y hy => h y (hpart.subset hy)) rfl
      have hother : ∀ {part : List α}, part.Sublist l → ∀ y, (part.mergeSort le).head? = some y →
          y = x ∨ le x y = true ∧ le y x = false :=
        fun hpart y hy => h y (hpart.subset (mem_mergeSort.mp (mem_of_head? hy)))
      rcases mem_append.mp ((take_append_drop ((l.length + 1) / 2) l).symm ▸ hx) with hmem | hmem
      · refine head_merge_left (hhead (take_sublist _ _) ?_ hmem) fun y hy => ?_
        · rw [length_take]
          omega
        · exact (hother (drop_sublist _ _) y hy).imp_right And.left
      · refine head_merge_right (hhead (drop_sublist _ _) ?_ hmem) fun y hy => ?_
        · rw [length_drop]
          omega
        · exact (hother (take_sublist _ _) y hy).imp_right And.right
    · match l with
      | [] => cases hx
      | [a] =>
        rw [mem_singleton.mp hx]
        simp
      | _ :: _ :: _ => simp at htwo

/-- Of three that turn in a circle, any comes to the head. -/
theorem head_mergeSort_three {α : Type} {le : α → α → Bool} {a b c : α} (hab : le a b = false) (hbc : le b c = false) :
    ([a, b, c].mergeSort le).head? = some c := by
  have hpair : [a, b].mergeSort le = [b, a] := by
    rw [mergeSort_halves (by simp)]
    simp [hab]
  rw [mergeSort_halves (by simp)]
  simp [hpair, hbc]

end MergeHead
