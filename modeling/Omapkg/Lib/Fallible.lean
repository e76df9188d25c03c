import Mathlib.Tactic.Common
/-!
# Fallible computations

Taking a computation in `Except` apart: one that returns a value went through
all its steps.
-/

namespace Fallible

variable {ε α β : Type}

theorem ok_bind {a : α} {f : α → Except ε β} : (Except.ok a >>= f) = f a := rfl

theorem bind_ok {x : Except ε α} {f : α → Except ε β} {b : β} :
    (x >>= f) = .ok b ↔ ∃ a, x = .ok a ∧ f a = .ok b := by
  cases x with
  | error e => exact ⟨nofun, nofun⟩
  | ok a =>
    constructor
    · exact fun h => ⟨a, rfl, h⟩
    · rintro ⟨_, ⟨⟩, h⟩
      exact h

/-- A guard that lets a computation through was false. -/
theorem guard_ok {p : Prop} [Decidable p] {e : ε} {x : Except ε α} {a : α} :
    (if p then .error e else x) = .ok a ↔ ¬p ∧ x = .ok a := by
  by_cases h : p <;> simp [h]

/-- A check of every element passes when each does. -/
theorem forM_ok {f : α → Except ε Unit} {l : List α} : l.forM f = .ok () ↔ ∀ x ∈ l, f x = .ok () := by
  induction l with
  | nil => exact ⟨fun _ x hx => absurd hx List.not_mem_nil, fun _ => rfl⟩
  | cons x l ih =>
    change (f x >>= fun _ => l.forM f) = .ok () ↔ _
    rw [bind_ok, List.forall_mem_cons, ← ih]
    exact ⟨fun ⟨_, hx, hl⟩ => ⟨hx, hl⟩, fun ⟨hx, hl⟩ => ⟨(), hx, hl⟩⟩

/-- A traversal that checks every element gives a value for each of them, when all pass. -/
theorem mapM_checked {p : α → Prop} [DecidablePred p] {g : α → β} {e : ε} {l : List α} {ys : List β} :
    (l.mapM fun x => if p x then Except.ok (g x) else .error e) = .ok ys ↔ (∀ x ∈ l, p x) ∧ l.map g = ys := by
  induction l generalizing ys with
  | nil => simp [pure, Except.pure]
  | cons x l ih =>
    rw [List.mapM_cons]
    by_cases hx : p x
    · simp only [hx, if_true, bind_ok, Except.ok.injEq, exists_eq_left', ih, pure, Except.pure, List.forall_mem_cons,
        true_and, List.map_cons]
      constructor
      · rintro ⟨zs, ⟨hl, rfl⟩, hys⟩
        exact ⟨hl, hys⟩
      · rintro ⟨hl, hys⟩
        exact ⟨l.map g, ⟨hl, rfl⟩, hys⟩
    · simp [hx, bind, Except.bind]

/-- What a traversal gives came of what it was given. -/
theorem mem_mapM {f : α → Except ε β} {l : List α} {ys : List β} (h : l.mapM f = .ok ys) {y : β} (hy : y ∈ ys) :
    ∃ x ∈ l, f x = .ok y := by
  induction l generalizing ys with
  | nil =>
    cases h
    cases hy
  | cons x rest ih =>
    rw [List.mapM_cons] at h
    obtain ⟨z, hz, h⟩ := bind_ok.mp h
    obtain ⟨zs, hzs, h⟩ := bind_ok.mp h
    cases h
    rcases List.mem_cons.mp hy with rfl | hy
    · exact ⟨x, List.mem_cons_self, hz⟩
    · obtain ⟨x', hx', hfx'⟩ := ih hzs hy
      exact ⟨x', List.mem_cons_of_mem _ hx', hfx'⟩

/-- A traversal whose steps are checks gives what they give, when all pass. -/
theorem mapM_filterMap {p : α → Prop} {g : α → Option β} {f : α → Except ε β} {l : List α} {ys : List β}
    (hf : ∀ x ∈ l, ∀ y, f x = .ok y ↔ p x ∧ g x = some y) (hg : ∀ x ∈ l, p x → ∃ y, g x = some y) :
    l.mapM f = .ok ys ↔ (∀ x ∈ l, p x) ∧ ys = l.filterMap g := by
  induction l generalizing ys with
  | nil => simp [pure, Except.pure, eq_comm]
  | cons x l ih =>
    have hrest : ∀ zs, l.mapM f = .ok zs ↔ (∀ x ∈ l, p x) ∧ zs = l.filterMap g := fun _ =>
      ih (fun y hy => hf y (List.mem_cons_of_mem _ hy)) fun y hy => hg y (List.mem_cons_of_mem _ hy)
    rw [List.mapM_cons, bind_ok, List.forall_mem_cons]
    constructor
    · rintro ⟨y, hy, h⟩
      obtain ⟨zs, hzs, h⟩ := bind_ok.mp h
      obtain ⟨hx, hgx⟩ := (hf x List.mem_cons_self y).mp hy
      obtain ⟨hl, rfl⟩ := (hrest zs).mp hzs
      cases h
      exact ⟨⟨hx, hl⟩, by rw [List.filterMap_cons_some hgx]⟩
    · rintro ⟨⟨hx, hl⟩, rfl⟩
      obtain ⟨y, hy⟩ := hg x List.mem_cons_self hx
      refine ⟨y, (hf x List.mem_cons_self y).mpr ⟨hx, hy⟩, bind_ok.mpr ⟨_, (hrest _).mpr ⟨hl, rfl⟩, ?_⟩⟩
      rw [List.filterMap_cons_some hy]
      rfl

/-- A traversal keeps the order of what it is given. -/
theorem map_of_mapM {γ : Type} {f : α → Except ε β} {key : α → γ} {of : β → γ} (h : ∀ x y, f x = .ok y → of y = key x) {l : List α} {ys : List β} (hl : l.mapM f = .ok ys) : ys.map of = l.map key := by
  induction l generalizing ys with
  | nil =>
    cases hl
    rfl
  | cons x l ih =>
    rw [List.mapM_cons] at hl
    obtain ⟨y, hy, hl⟩ := bind_ok.mp hl
    obtain ⟨zs, hzs, hl⟩ := bind_ok.mp hl
    cases hl
    rw [List.map_cons, List.map_cons, h x y hy, ih hzs]

section
variable {l : List α}

theorem mapM_forall₂ {f : α → Except ε β} {R : α → β → Prop} (hf : ∀ a ∈ l, ∀ b, f a = .ok b → R a b) {ys : List β}
    (h : l.mapM f = .ok ys) : List.Forall₂ R l ys := by
  induction l generalizing ys with
  | nil =>
    cases h
    exact .nil
  | cons a l ih =>
    rw [List.forall_mem_cons] at hf
    rw [List.mapM_cons] at h
    obtain ⟨y, hy, h⟩ := bind_ok.mp h
    obtain ⟨zs, hzs, h⟩ := bind_ok.mp h
    cases h
    exact .cons (hf.1 y hy) (ih hf.2 hzs)

/-- Steps that fail less often give what they gave. -/
theorem mapM_mono {f g : α → Except ε β} (hstep : ∀ a b, f a = .ok b → g a = .ok b) {ys : List β}
    (h : l.mapM f = .ok ys) : l.mapM g = .ok ys := by
  induction l generalizing ys with
  | nil => exact h
  | cons a l ih =>
    rw [List.mapM_cons] at h ⊢
    obtain ⟨y, hy, h⟩ := bind_ok.mp h
    obtain ⟨zs, hzs, h⟩ := bind_ok.mp h
    exact bind_ok.mpr ⟨y, hstep a y hy, bind_ok.mpr ⟨zs, ih hzs, h⟩⟩

theorem foldlM_mono {f g : β → α → Except ε β} (hstep : ∀ b a b', f b a = .ok b' → g b a = .ok b') {b b' : β}
    (h : l.foldlM f b = .ok b') : l.foldlM g b = .ok b' := by
  induction l generalizing b with
  | nil => exact h
  | cons a l ih =>
    rw [List.foldlM_cons] at h ⊢
    obtain ⟨b₁, hb₁, hrest⟩ := bind_ok.mp h
    exact bind_ok.mpr ⟨b₁, hstep b a b₁ hb₁, ih hrest⟩

end

/-- What holds at the start and is kept by every element, a loop that returns leaves. -/
theorem foldlM_keeps {P : List α → β → Prop} {f : β → α → Except ε β}
    (hstep : ∀ done b a b', P done b → f b a = .ok b' → P (done ++ [a]) b') {d l : List α} {b b' : β} (hb : P d b)
    (h : l.foldlM f b = .ok b') : P (d ++ l) b' := by
  induction l generalizing d b with
  | nil =>
    cases h
    rwa [List.append_nil]
  | cons a l ih =>
    rw [List.foldlM_cons] at h
    obtain ⟨b₁, hb₁, hrest⟩ := bind_ok.mp h
    rw [List.append_cons]
    exact ih (hstep d b a b₁ hb hb₁) hrest

end Fallible
