import Mathlib.Data.List.Basic
import Mathlib.Tactic.Common
/-!
# Writing into a buffer

A run of elements written over a buffer of fixed length, and the runs read back
from it. Writes to places that do not meet are independent.
-/

namespace Blit

variable {α : Type*}

/-- `xs` written over the buffer from `offset` on. -/
def blit (buffer xs : List α) (offset : Nat) : List α := buffer.take offset ++ xs ++ buffer.drop (offset + xs.length)

/-- The `width` elements of a buffer from `offset` on. -/
def slice (buffer : List α) (offset width : Nat) : List α := (buffer.drop offset).take width

variable {t xs ys : List α} {o p w : Nat}

theorem length_blit (h : o + xs.length ≤ t.length) : (blit t xs o).length = t.length := by
  simp only [blit, List.length_append, List.length_take, List.length_drop]
  omega

theorem getElem?_blit (h : o + xs.length ≤ t.length) (i : Nat) :
    (blit t xs o)[i]? = if o ≤ i ∧ i < o + xs.length then xs[i - o]? else t[i]? := by
  have hlen : (t.take o).length = o := by simp only [List.length_take]; omega
  unfold blit
  rcases Nat.lt_or_ge i o with hi | hi
  · rw [if_neg (by omega), List.append_assoc, List.getElem?_append_left (by omega), List.getElem?_take_of_lt hi]
  · rw [List.append_assoc, List.getElem?_append_right (by omega), hlen]
    rcases Nat.lt_or_ge (i - o) xs.length with hx | hx
    · rw [if_pos (by omega), List.getElem?_append_left hx]
    · rw [if_neg (by omega), List.getElem?_append_right hx, List.getElem?_drop]
      congr 1
      omega

theorem getElem?_slice (t : List α) (o w i : Nat) : (slice t o w)[i]? = if i < w then t[o + i]? else none := by
  rw [slice, List.getElem?_take]
  split <;> simp

theorem length_slice (h : o + w ≤ t.length) : (slice t o w).length = w := by
  simp only [slice, List.length_take, List.length_drop]
  omega

/-- A write is read back, with what the buffer held behind it. -/
theorem slice_blit (h : o + xs.length ≤ t.length) (hw : xs.length ≤ w) :
    slice (blit t xs o) o w = xs ++ slice t (o + xs.length) (w - xs.length) := by
  apply List.ext_getElem?
  intro i
  rw [getElem?_slice, getElem?_blit h]
  rcases Nat.lt_or_ge i xs.length with hi | hi
  · rw [if_pos (by omega), if_pos (by omega), List.getElem?_append_left hi]
    congr 1
    omega
  · rw [List.getElem?_append_right hi, getElem?_slice]
    by_cases hiw : i < w
    · rw [if_pos hiw, if_neg (by omega), if_pos (by omega)]
      congr 1
      omega
    · rw [if_neg hiw, if_neg (by omega)]

/-- A write leaves what it does not meet. -/
theorem slice_blit_of_disjoint (h : o + xs.length ≤ t.length) (hd : p + w ≤ o ∨ o + xs.length ≤ p) :
    slice (blit t xs o) p w = slice t p w := by
  apply List.ext_getElem?
  intro i
  rw [getElem?_slice, getElem?_slice, getElem?_blit h]
  split
  · rw [if_neg (by omega)]
  · rfl

/-- A field of a buffer written, and the rest of it left. -/
structure Wrote (t t' : List α) (o w : Nat) (xs : List α) : Prop where
  length : t'.length = t.length
  held : slice t' o w = xs ++ slice t (o + xs.length) (w - xs.length)
  frame : ∀ p k, p + k ≤ o ∨ o + w ≤ p → slice t' p k = slice t p k

theorem wrote_blit (h : o + xs.length ≤ t.length) (hw : xs.length ≤ w) : Wrote t (blit t xs o) o w xs :=
  ⟨length_blit h, slice_blit h hw, fun p k hd => slice_blit_of_disjoint h (by omega)⟩

/-- The later of two writes to one place stays. -/
theorem blit_blit (h : o + xs.length ≤ t.length) (hl : ys.length = xs.length) : blit (blit t xs o) ys o = blit t ys o := by
  apply List.ext_getElem?
  intro i
  rw [getElem?_blit (by rw [length_blit h]; omega), getElem?_blit h, getElem?_blit (by omega), hl]
  split <;> rfl

/-- Writing what is there changes nothing. -/
theorem blit_slice (h : o + w ≤ t.length) : blit t (slice t o w) o = t := by
  have hlen : (slice t o w).length = w := length_slice h
  apply List.ext_getElem?
  intro i
  rw [getElem?_blit (by omega), hlen, getElem?_slice]
  split
  · rw [if_pos (by omega)]
    congr 1
    omega
  · rfl

theorem slice_append (xs ys : List α) (o w : Nat) : slice (xs ++ ys) (xs.length + o) w = slice ys o w := by
  rw [slice, List.drop_length_add_append, slice]

theorem slice_replicate (a : α) {n : Nat} (h : o + w ≤ n) : slice (List.replicate n a) o w = List.replicate w a := by
  rw [slice, List.drop_replicate, List.take_replicate]
  congr 1
  omega

/-- A write that fills the front of what is left of a buffer. -/
theorem blit_append (done rest : List α) :
    blit (done ++ rest) xs done.length = done ++ xs ++ rest.drop xs.length := by
  rw [blit, List.take_left, List.drop_length_add_append]

end Blit
