import Mathlib.Logic.Relation
/-!
# Programs over a shared state

A program is a tree of atomic steps. It runs alone (`run`) or stops anywhere
(`stop`, a crash). `Ok R G Q p s` says that `p`, last seeing the state `s` and
among steps of others in `R`, makes only steps in `G` and ends with `Q`.
-/

open Relation

/-- A program over states `σ`. A step replaces the state at once and goes on
with the state it found. -/
inductive Prog (σ ε α : Type) where
  | done (a : α)
  | fail (e : ε)
  | step (write : σ → σ) (next : σ → Prog σ ε α)

namespace Prog

variable {σ ε α β : Type}

protected def bind (p : Prog σ ε α) (f : α → Prog σ ε β) : Prog σ ε β :=
  match p with
  | done a => f a
  | fail e => fail e
  | step write next => step write fun s => (next s).bind f

instance : Monad (Prog σ ε) where
  pure := done
  bind := Prog.bind

def read (f : σ → α) : Prog σ ε α := step id fun s => done (f s)

def modify (f : σ → σ) : Prog σ ε Unit := step f fun _ => done ()

def ofExcept : Except ε α → Prog σ ε α
  | .ok a => done a
  | .error e => fail e

def mapError {ε' : Type} (f : ε → ε') : Prog σ ε α → Prog σ ε' α
  | done a => done a
  | fail e => fail (f e)
  | step write next => step write fun s => (next s).mapError f

/-- `p`, whose failure is an answer too. -/
def attempt {ε' : Type} : Prog σ ε α → Prog σ ε' (Except ε α)
  | done a => done (.ok a)
  | fail e => done (.error e)
  | step write next => step write fun s => (next s).attempt

/-! ## Running alone -/

def run : Prog σ ε α → σ → Except ε α × σ
  | done a, s => (.ok a, s)
  | fail e, s => (.error e, s)
  | step write next, s => (next s).run (write s)

/-- The state that is left when the program stops after `n` steps. -/
def stop : Nat → Prog σ ε α → σ → σ
  | n + 1, step write next, s => (next s).stop n (write s)
  | _, _, s => s

@[simp] theorem stop_zero (p : Prog σ ε α) (s : σ) : p.stop 0 s = s := by cases p <;> rfl

theorem run_bind (p : Prog σ ε α) (f : α → Prog σ ε β) (s : σ) :
    (p.bind f).run s = match p.run s with
      | (.ok a, s') => (f a).run s'
      | (.error e, s') => (.error e, s') := by
  induction p generalizing s with
  | done a => rfl
  | fail e => rfl
  | step write next ih => exact ih s (write s)

theorem run_bind_ok {p : Prog σ ε α} {f : α → Prog σ ε β} {s s' : σ} {b : β} :
    (p >>= f).run s = (.ok b, s') ↔ ∃ a s₁, p.run s = (.ok a, s₁) ∧ (f a).run s₁ = (.ok b, s') := by
  rw [show p >>= f = p.bind f from rfl, run_bind]
  rcases p.run s with ⟨e | a, s₁⟩
  · simp
  · refine ⟨fun h => ⟨a, s₁, rfl, h⟩, ?_⟩
    rintro ⟨a', s₂, ha, h⟩
    cases ha
    exact h

theorem run_read_bind {view : σ → α} {f : α → Prog σ ε β} (s : σ) :
    (read view >>= f).run s = (f (view s)).run s := rfl

theorem stop_read_bind {view : σ → α} {f : α → Prog σ ε β} (n : Nat) (s : σ) :
    (read view >>= f).stop (n + 1) s = (f (view s)).stop n s := rfl

theorem run_modify_bind {write : σ → σ} {f : Unit → Prog σ ε β} (s : σ) :
    (modify write >>= f).run s = (f ()).run (write s) := rfl

theorem run_ofExcept_bind_ok {x : Except ε α} {f : α → Prog σ ε β} {s s' : σ} {b : β} :
    (ofExcept x >>= f).run s = (.ok b, s') ↔ ∃ a, x = .ok a ∧ (f a).run s = (.ok b, s') := by
  cases x with
  | ok a =>
    refine ⟨fun h => ⟨a, rfl, h⟩, ?_⟩
    rintro ⟨a', ha, h⟩
    rwa [← Except.ok.inj ha] at h
  | error e =>
    refine ⟨fun h => ?_, fun ⟨a, ha, _⟩ => nomatch ha⟩
    exact nomatch (Prod.mk.inj h).1

theorem run_mapError_ok {ε' : Type} {g : ε → ε'} {p : Prog σ ε α} {s s' : σ} {a : α} :
    (p.mapError g).run s = (.ok a, s') ↔ p.run s = (.ok a, s') := by
  induction p generalizing s with
  | done b => simp [mapError, run]
  | fail e => simp [mapError, run]
  | step write next ih => exact ih s

/-- A whole run is a run that stops late enough. -/
theorem exists_stop (p : Prog σ ε α) (s : σ) : ∃ n, p.stop n s = (p.run s).2 := by
  induction p generalizing s with
  | done a => exact ⟨0, rfl⟩
  | fail e => exact ⟨0, rfl⟩
  | step write next ih =>
    obtain ⟨n, hn⟩ := ih s (write s)
    exact ⟨n + 1, hn⟩

/-! ## Running among others

Nothing is said of what others do between the steps: the `n`-th step finds `found n`. -/

def answer (found : Nat → σ) : Prog σ ε α → Except ε α
  | done a => .ok a
  | fail e => .error e
  | step _ next => (next (found 0)).answer fun n => found (n + 1)

/-- What each step finds and leaves. -/
def moves (found : Nat → σ) : Prog σ ε α → List (σ × σ)
  | done _ | fail _ => []
  | step write next => (found 0, write (found 0)) :: (next (found 0)).moves fun n => found (n + 1)

section
variable {found : Nat → σ}

theorem answer_read_bind {view : σ → β} {f : β → Prog σ ε α} :
    (read view >>= f).answer found = (f (view (found 0))).answer fun n => found (n + 1) := rfl

theorem moves_read_bind {view : σ → β} {f : β → Prog σ ε α} :
    (read view >>= f).moves found = (found 0, found 0) :: (f (view (found 0))).moves fun n => found (n + 1) := rfl

theorem ofExcept_ok_bind (b : β) (f : β → Prog σ ε α) : ofExcept (.ok b) >>= f = f b := rfl

end

/-! ## Assumptions and guarantees -/

/-- What holds of a program among others. -/
def Ok (R G : σ → σ → Prop) (Q : α → σ → Prop) : Prog σ ε α → σ → Prop
  | done a, s => ∀ s', R s s' → Q a s'
  | fail _, _ => True
  | step write next, s => ∀ s', R s s' → G s' (write s') ∧ Ok R G Q (next s') (write s')

section
variable {R G : σ → σ → Prop} {Q : α → σ → Prop}

theorem ok_bind (hrefl : ∀ s, R s s) {P : β → σ → Prop} {p : Prog σ ε β} {f : β → Prog σ ε α} {s : σ}
    (hp : Ok R G P p s) (hf : ∀ b s, P b s → Ok R G Q (f b) s) : Ok R G Q (p.bind f) s := by
  induction p generalizing s with
  | done b => exact hf b s (hp s (hrefl s))
  | fail e => trivial
  | step write next ih =>
    intro s' hs
    obtain ⟨hg, hnext⟩ := hp s' hs
    exact ⟨hg, ih s' hnext⟩

theorem ok_mapError {ε' : Type} {g : ε → ε'} {p : Prog σ ε α} {s : σ} (h : Ok R G Q p s) :
    Ok R G Q (p.mapError g) s := by
  induction p generalizing s with
  | done a => exact h
  | fail e => trivial
  | step write next ih => exact fun s' hs => ⟨(h s' hs).1, ih s' (h s' hs).2⟩

theorem ok_ofExcept_bind {x : Except ε β} {f : β → Prog σ ε α} {s : σ}
    (h : ∀ b, x = .ok b → Ok R G Q (f b) s) : Ok R G Q (ofExcept x >>= f) s := by
  cases x with
  | ok b => exact h b rfl
  | error e => trivial

theorem ok_read_bind {view : σ → β} {f : β → Prog σ ε α} {s : σ}
    (h : ∀ s', R s s' → G s' s' ∧ Ok R G Q (f (view s')) s') : Ok R G Q (read view >>= f) s := h

theorem ok_modify_bind {write : σ → σ} {f : Unit → Prog σ ε α} {s : σ}
    (h : ∀ s', R s s' → G s' (write s') ∧ Ok R G Q (f ()) (write s')) : Ok R G Q (modify write >>= f) s := h

theorem Ok.imp {Q' : α → σ → Prop} (hQ : ∀ a s, Q a s → Q' a s) {p : Prog σ ε α} {s : σ} (h : Ok R G Q p s) :
    Ok R G Q' p s := by
  induction p generalizing s with
  | done a => exact fun s' hs => hQ a s' (h s' hs)
  | fail e => trivial
  | step write next ih => exact fun s' hs => ⟨(h s' hs).1, ih s' (h s' hs).2⟩

theorem Ok.mono {G' : σ → σ → Prop} (hG : ∀ s s', G s s' → G' s s') {p : Prog σ ε α} {s : σ} (h : Ok R G Q p s) :
    Ok R G' Q p s := by
  induction p generalizing s with
  | done a => exact h
  | fail e => trivial
  | step write next ih => exact fun s' hs => ⟨hG _ _ (h s' hs).1, ih s' (h s' hs).2⟩

/-- What a program alone ends with is reached by its steps. -/
theorem Ok.reach {p : Prog σ ε α} {s₀ s : σ} (h : Ok Eq G Q p s) (hs : ReflTransGen G s₀ s) :
    Ok Eq G (fun a s' => Q a s' ∧ ReflTransGen G s₀ s') p s := by
  induction p generalizing s with
  | done a =>
    rintro _ rfl
    exact ⟨h s rfl, hs⟩
  | fail e => trivial
  | step write next ih =>
    rintro _ rfl
    obtain ⟨hg, hnext⟩ := h s rfl
    exact ⟨hg, ih s hnext (hs.tail hg)⟩

theorem Ok.stop (hrefl : ∀ s, R s s) {p : Prog σ ε α} {s : σ} (h : Ok R G Q p s) (n : Nat) :
    ReflTransGen G s (p.stop n s) := by
  induction p generalizing s n with
  | done a => cases n <;> exact .refl
  | fail e => cases n <;> exact .refl
  | step write next ih =>
    cases n with
    | zero => exact .refl
    | succ n =>
      obtain ⟨hg, hnext⟩ := h s (hrefl s)
      exact .head hg (ih s hnext n)

/-- One more step before the stop. -/
theorem Ok.stop_succ (hrefl : ∀ s, R s s) {p : Prog σ ε α} {s : σ} (h : Ok R G Q p s) (n : Nat) :
    p.stop (n + 1) s = p.stop n s ∨ G (p.stop n s) (p.stop (n + 1) s) := by
  induction p generalizing s n with
  | done a => cases n <;> exact .inl rfl
  | fail e => cases n <;> exact .inl rfl
  | step write next ih =>
    obtain ⟨hg, hnext⟩ := h s (hrefl s)
    cases n with
    | zero =>
      right
      rcases hp : next s with a | e | ⟨write', next'⟩ <;> simpa [Prog.stop, hp] using hg
    | succ n => exact ih s hnext n

theorem Ok.run (hrefl : ∀ s, R s s) {p : Prog σ ε α} {s : σ} (h : Ok R G Q p s) :
    ReflTransGen G s (p.run s).2 ∧ ∀ a, (p.run s).1 = .ok a → Q a (p.run s).2 := by
  induction p generalizing s with
  | done a =>
    refine ⟨.refl, fun b hb => ?_⟩
    obtain rfl := Except.ok.inj hb
    exact h s (hrefl s)
  | fail e => exact ⟨.refl, fun b hb => nomatch hb⟩
  | step write next ih =>
    obtain ⟨hg, hnext⟩ := h s (hrefl s)
    obtain ⟨hsteps, hdone⟩ := ih s hnext
    exact ⟨.head hg hsteps, hdone⟩

end

end Prog
