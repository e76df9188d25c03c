import Mathlib.Tactic.Common
/-!
# Bounds

Bounds of a comparison. Everything is stated for lower bounds: an upper bound is a
lower bound of the comparison turned around. A bound covers another when it is at
least as strict, and then it admits no more.
-/

/-- A place, and whether it is inside. -/
structure Bound (α : Type) where
  position : α
  inclusive : Bool

namespace Bound

variable {α β : Type} {cmp : α → α → Ordering} {native reviewed : Option (Bound α)} {x : α}

def map (f : α → β) (b : Bound α) : Bound β := ⟨f b.position, b.inclusive⟩

/-- `x` is above the bound, or on it where that is inside. No bound admits everything. -/
def Admits (cmp : α → α → Ordering) (bound : Option (Bound α)) (x : α) : Prop :=
  ∀ b ∈ bound, cmp x b.position = .gt ∨ cmp x b.position = .eq ∧ b.inclusive = true

/-- The native bound is above the reviewed one, or on it and no wider there. -/
def Covers (cmp : α → α → Ordering) (native reviewed : Option (Bound α)) : Prop :=
  ∀ r ∈ reviewed, ∃ n ∈ native, cmp n.position r.position = .gt ∨
    cmp n.position r.position = .eq ∧ (n.inclusive = true → r.inclusive = true)

@[simp] theorem admits_none : Admits cmp none x := fun _ h => nomatch h

@[simp] theorem admits_some {b : Bound α} :
    Admits cmp (some b) x ↔ cmp x b.position = .gt ∨ cmp x b.position = .eq ∧ b.inclusive = true := by
  simp [Admits]

/-- `x` is below the bound, or on it where that is inside. -/
def AdmitsBelow (cmp : α → α → Ordering) (bound : Option (Bound α)) (x : α) : Prop :=
  Admits (fun a b => cmp b a) bound x

@[simp] theorem admitsBelow_none : AdmitsBelow cmp none x := admits_none

@[simp] theorem admitsBelow_some [Std.OrientedCmp cmp] {b : Bound α} :
    AdmitsBelow cmp (some b) x ↔ cmp x b.position = .lt ∨ cmp x b.position = .eq ∧ b.inclusive = true := by
  rw [AdmitsBelow, admits_some, Std.OrientedCmp.gt_iff_lt, Std.OrientedCmp.eq_comm]

theorem Covers.admits [Std.TransCmp cmp] (h : Covers cmp native reviewed) (hx : Admits cmp native x) :
    Admits cmp reviewed x := by
  intro r hr
  obtain ⟨n, hn, hcovers⟩ := h r hr
  rcases hx n hn with hx | ⟨hx, hinclusive⟩ <;> rcases hcovers with hc | ⟨hc, himp⟩
  · exact .inl (Std.TransCmp.gt_trans hx hc)
  · exact .inl (Std.TransCmp.gt_of_gt_of_eq hx hc)
  · exact .inl (Std.TransCmp.gt_of_eq_of_gt hx hc)
  · exact .inr ⟨Std.TransCmp.eq_trans hx hc, himp hinclusive⟩

end Bound

/-- A comparison of what is read of both sides. -/
theorem transCmp_on {α β : Type} (cmp : β → β → Ordering) [Std.TransCmp cmp] (f : α → β) :
    Std.TransCmp fun a b => cmp (f a) (f b) where
  eq_swap {_ _} := @Std.OrientedCmp.eq_swap _ cmp _ _ _
  isLE_trans {_ _ _} := @Std.TransCmp.isLE_trans _ cmp _ _ _ _
