import Mathlib.Tactic.Common
/-!
# Pieces between separators

What `List.splitOn` takes apart, beside what the library says of it.
-/

namespace Pieces

variable {α : Type}

/-- A piece is of what was taken apart, and holds no separator. -/
theorem mem_of_mem_splitOnP {p : α → Bool} {l piece : List α} (h : piece ∈ l.splitOnP p) {x : α} (hx : x ∈ piece) :
    x ∈ l ∧ p x = false := by
  induction l generalizing piece with
  | nil =>
    rw [List.splitOnP_nil, List.mem_singleton] at h
    rw [h] at hx
    cases hx
  | cons a l ih =>
    rw [List.splitOnP_cons_eq_if_modifyHead] at h
    split at h
    · rcases List.mem_cons.mp h with rfl | h
      · cases hx
      · exact ⟨List.mem_cons_of_mem _ (ih h hx).1, (ih h hx).2⟩
    · rename_i hsep
      cases hpieces : l.splitOnP p with
      | nil => exact absurd hpieces (List.splitOnP_ne_nil p l)
      | cons first rest =>
        rw [hpieces] at h ih
        rw [List.modifyHead_cons] at h
        rcases List.mem_cons.mp h with rfl | h
        · rcases List.mem_cons.mp hx with rfl | hx
          · exact ⟨List.mem_cons_self, by simpa using hsep⟩
          · have hfirst := ih List.mem_cons_self hx
            exact ⟨List.mem_cons_of_mem _ hfirst.1, hfirst.2⟩
        · have hrest := ih (List.mem_cons_of_mem _ h) hx
          exact ⟨List.mem_cons_of_mem _ hrest.1, hrest.2⟩

section
variable [BEq α] [LawfulBEq α] {sep : α}

theorem notMem_of_mem_splitOn {l piece : List α} (h : piece ∈ l.splitOn sep) : sep ∉ piece := by
  intro hmem
  rw [List.splitOn_eq_splitOnP] at h
  have hnot := (mem_of_mem_splitOnP h hmem).2
  rw [beq_self_eq_true] at hnot
  cases hnot

/-- The pieces in another order are those of some list. -/
theorem exists_splitOn_perm {l : List α} {pieces : List (List α)} (h : pieces.Perm (l.splitOn sep)) :
    ∃ l' : List α, l'.splitOn sep = pieces := by
  refine ⟨[sep].intercalate pieces, List.splitOn_intercalate _ ?_ ?_⟩
  · exact fun piece hmem => notMem_of_mem_splitOn (h.subset hmem)
  · intro hnil
    rw [hnil] at h
    exact List.splitOn_ne_nil sep l (List.nil_perm.mp h)

end

end Pieces
