import Mathlib.Order.Bounds.Basic
/-!
# The first difference of two lists

Where two lists first differ: at an element, or at the end of one that is a prefix
of the other. What is compared piece by piece finds it in the first pieces that
differ.
-/

namespace Mismatch

variable {α : Type} [DecidableEq α]

/-- The first place at which both lists have an element and the elements differ. -/
def first : List α → List α → Option Nat
  | a :: as, b :: bs => if a = b then (first as bs).map (· + 1) else some 0
  | _, _ => none

/-- The least place at which two lists differ. -/
def Least (xs ys : List α) (k : Nat) : Prop := IsLeast {k | xs[k]? ≠ ys[k]?} k

omit [DecidableEq α] in
theorem least_iff {xs ys : List α} {k : Nat} : Least xs ys k ↔ xs[k]? ≠ ys[k]? ∧ ∀ j < k, xs[j]? = ys[j]? := by
  constructor
  · rintro ⟨hk, hle⟩
    refine ⟨hk, fun j hj => ?_⟩
    by_contra hne
    exact absurd (hle hne) (Nat.not_le.mpr hj)
  · rintro ⟨hk, hlt⟩
    refine ⟨hk, fun j hj => ?_⟩
    by_contra hlt'
    exact hj (hlt j (Nat.not_le.mp hlt'))

omit [DecidableEq α] in
theorem Least.cons {a : α} {xs ys : List α} {k : Nat} (h : Least xs ys k) : Least (a :: xs) (a :: ys) (k + 1) := by
  rw [least_iff] at h ⊢
  refine ⟨by simpa using h.1, fun j hj => ?_⟩
  cases j with
  | zero => rfl
  | succ j => simpa using h.2 j (Nat.lt_of_succ_lt_succ hj)

theorem first_some {xs ys : List α} {k : Nat} (h : first xs ys = some k) :
    Least xs ys k ∧ k < xs.length ∧ k < ys.length := by
  induction xs generalizing ys k with
  | nil => cases h
  | cons a xs ih =>
    cases ys with
    | nil => cases h
    | cons b ys =>
      rw [first] at h
      split at h
      · rename_i hab
        obtain ⟨j, hj, rfl⟩ := Option.map_eq_some_iff.mp h
        obtain ⟨hleast, hx, hy⟩ := ih hj
        exact ⟨hab ▸ hleast.cons, Nat.succ_lt_succ hx, Nat.succ_lt_succ hy⟩
      · rename_i hab
        cases h
        refine ⟨least_iff.mpr ⟨by simpa using hab, fun j hj => absurd hj (Nat.not_lt_zero j)⟩, ?_, ?_⟩
        · exact Nat.succ_pos _
        · exact Nat.succ_pos _

theorem first_none {xs ys : List α} (h : first xs ys = none) :
    ∀ j, j < xs.length → j < ys.length → xs[j]? = ys[j]? := by
  induction xs generalizing ys with
  | nil =>
    intro j hj
    exact absurd hj (Nat.not_lt_zero j)
  | cons a xs ih =>
    cases ys with
    | nil =>
      intro j _ hj
      exact absurd hj (Nat.not_lt_zero j)
    | cons b ys =>
      rw [first] at h
      split at h
      · rename_i hab
        intro j hx hy
        cases j with
        | zero => simp [hab]
        | succ j => simpa using ih (Option.map_eq_none_iff.mp h) j (Nat.lt_of_succ_lt_succ hx) (Nat.lt_of_succ_lt_succ hy)
      · cases h

/-- Lists of one length without such a place are equal. -/
theorem eq_of_first_none {xs ys : List α} (h : first xs ys = none) (hlen : xs.length = ys.length) : xs = ys := by
  refine List.ext_getElem? fun j => ?_
  by_cases hj : j < xs.length
  · exact first_none h j hj (hlen ▸ hj)
  · rw [List.getElem?_eq_none (Nat.not_lt.mp hj), List.getElem?_eq_none (hlen ▸ Nat.not_lt.mp hj)]

/-! ## Pieces -/

/-- A place where the first pieces differ. -/
theorem least_of_first {n : Nat} {xs ys : List α} {k : Nat} (h : first (xs.take n) (ys.take n) = some k) :
    Least xs ys k := by
  obtain ⟨hleast, hx, -⟩ := first_some h
  rw [List.length_take] at hx
  rw [least_iff] at hleast ⊢
  have hlt : k < n := Nat.lt_of_lt_of_le hx (Nat.min_le_left _ _)
  refine ⟨by simpa [List.getElem?_take, hlt] using hleast.1, fun j hj => ?_⟩
  simpa [List.getElem?_take, Nat.lt_trans hj hlt] using hleast.2 j hj

/-- A piece that ends before the other, which goes on. -/
theorem least_of_length {n : Nat} {xs ys : List α} (h : first (xs.take n) (ys.take n) = none)
    (hlen : (xs.take n).length ≠ (ys.take n).length) :
    Least xs ys (min (xs.take n).length (ys.take n).length) := by
  have hsame := first_none h
  simp only [List.length_take] at hsame hlen ⊢
  rw [least_iff]
  constructor
  · rcases Nat.lt_or_gt_of_ne (show xs.length ≠ ys.length by omega) with hlt | hlt
    · rw [List.getElem?_eq_none (by omega), List.getElem?_eq_getElem (by omega)]
      exact fun h => by cases h
    · rw [List.getElem?_eq_getElem (by omega), List.getElem?_eq_none (by omega)]
      exact fun h => by cases h
  · intro j hj
    have hj' := hsame j (by omega) (by omega)
    have hlt : j < n := by omega
    simpa [List.getElem?_take, hlt] using hj'

omit [DecidableEq α] in
/-- A place behind pieces that are equal. -/
theorem Least.behind {n : Nat} {xs ys : List α} (h : xs.take n = ys.take n) {k : Nat}
    (hk : Least (xs.drop n) (ys.drop n) k) : Least xs ys (n + k) := by
  rw [least_iff] at hk ⊢
  refine ⟨by simpa using hk.1, fun j hj => ?_⟩
  by_cases hlt : j < n
  · have hj' := congrArg (fun zs => zs[j]?) h
    simpa [List.getElem?_take, hlt] using hj'
  · obtain ⟨i, rfl⟩ := Nat.exists_eq_add_of_le (Nat.not_lt.mp hlt)
    simpa using hk.2 i (by omega)

end Mismatch
