import Omapkg.Lib.Prog
/-!
# Programs among others

A pool is a shared state and the programs that have started over it. Their
steps come in any order and the outside moves the state between them. What
every program keeps, whoever runs beside it, holds in every state the pool
reaches.
-/

open Relation

namespace Prog

variable {σ ε α β : Type}

/-- One atomic step whose answer depends on the state it finds. -/
def transact (f : σ → Except ε α × σ) : Prog σ ε α := step (fun s => (f s).2) fun s => ofExcept (f s).1

/-! ## What a program keeps -/

section
variable {I : σ → Prop} {C G R : σ → σ → Prop} {Q : α → σ → Prop}

/-- What holds of a program that last saw the state `s`, while `I` holds and
others move the state by `R`: as long as its own steps are in `C`, they keep
`I` and are in `G`, and it ends with `Q`. -/
def Keeps (I : σ → Prop) (C G R : σ → σ → Prop) (Q : α → σ → Prop) : Prog σ ε α → σ → Prop
  | done a, s => ∀ s', I s' → R s s' → Q a s'
  | fail _, _ => True
  | step write next, s =>
    ∀ s', I s' → R s s' → C s' (write s') →
      I (write s') ∧ G s' (write s') ∧ Keeps I C G R Q (next s') (write s')

theorem Keeps.weaken [IsTrans σ R] {p : Prog σ ε α} {s s' : σ} (h : Keeps I C G R Q p s) (hs : R s s') :
    Keeps I C G R Q p s' := by
  cases p with
  | done a => exact fun s'' hi hs' => h s'' hi (trans_of R hs hs')
  | fail e => trivial
  | step write next => exact fun s'' hi hs' => h s'' hi (trans_of R hs hs')

theorem keeps_mono {Q' : α → σ → Prop} (hQ : ∀ a s, Q a s → Q' a s) {p : Prog σ ε α} {s : σ}
    (h : Keeps I C G R Q p s) : Keeps I C G R Q' p s := by
  induction p generalizing s with
  | done a => exact fun s' hi hs => hQ a s' (h s' hi hs)
  | fail e => trivial
  | step write next ih =>
    intro s' hi hs hc
    obtain ⟨hi', hg, hnext⟩ := h s' hi hs hc
    exact ⟨hi', hg, ih s' hnext⟩

theorem keeps_bind [Std.Refl R] {P : β → σ → Prop} {p : Prog σ ε β} {f : β → Prog σ ε α} {s : σ} (hi : I s)
    (hp : Keeps I C G R P p s) (hf : ∀ b s, I s → P b s → Keeps I C G R Q (f b) s) :
    Keeps I C G R Q (p >>= f) s := by
  induction p generalizing s with
  | done b => exact hf b s hi (hp s hi (refl_of R s))
  | fail e => trivial
  | step write next ih =>
    intro s' hi' hs hc
    obtain ⟨hi₁, hg, hnext⟩ := hp s' hi' hs hc
    exact ⟨hi₁, hg, ih s' hi₁ hnext⟩

/-- What no step of anyone changes still holds at the end. -/
theorem Keeps.frame {P : σ → Prop} (hr : ∀ s s', P s → R s s' → P s') (hg : ∀ s s', P s → G s s' → P s')
    {p : Prog σ ε α} {s : σ} (h : Keeps I C G R Q p s) (hp : P s) : Keeps I C G R (fun a s => Q a s ∧ P s) p s := by
  induction p generalizing s with
  | done a => exact fun s' hi hs => ⟨h s' hi hs, hr s s' hp hs⟩
  | fail e => trivial
  | step write next ih =>
    intro s' hi hs hc
    obtain ⟨hi', hg', hnext⟩ := h s' hi hs hc
    exact ⟨hi', hg', ih s' hnext (hg _ _ (hr s s' hp hs) hg')⟩

theorem keeps_mapError {ε' : Type} {g : ε → ε'} {p : Prog σ ε α} {s : σ} (h : Keeps I C G R Q p s) :
    Keeps I C G R Q (p.mapError g) s := by
  induction p generalizing s with
  | done a => exact h
  | fail e => trivial
  | step write next ih =>
    intro s' hi hs hc
    obtain ⟨hi', hg, hnext⟩ := h s' hi hs hc
    exact ⟨hi', hg, ih s' hnext⟩

theorem keeps_attempt {ε' : Type} {p : Prog σ ε α} {s : σ} (h : Keeps I C G R Q p s) :
    Keeps I C G R (fun x s => ∀ a, x = .ok a → Q a s) (p.attempt : Prog σ ε' (Except ε α)) s := by
  induction p generalizing s with
  | done a =>
    intro s' hi hs b hb
    cases hb
    exact h s' hi hs
  | fail e =>
    intro s' hi hs b hb
    cases hb
  | step write next ih =>
    intro s' hi hs hc
    obtain ⟨hi', hg, hnext⟩ := h s' hi hs hc
    exact ⟨hi', hg, ih s' hnext⟩

theorem keeps_ofExcept_bind {x : Except ε β} {f : β → Prog σ ε α} {s : σ}
    (h : ∀ b, x = .ok b → Keeps I C G R Q (f b) s) : Keeps I C G R Q (ofExcept x >>= f) s := by
  cases x with
  | ok b => exact h b rfl
  | error e => trivial

theorem keeps_ofExcept {x : Except ε α} {s : σ} (h : ∀ a, x = .ok a → ∀ s', I s' → R s s' → Q a s') :
    Keeps I C G R Q (ofExcept x) s := by
  cases x with
  | ok a => exact h a rfl
  | error e => trivial

theorem keeps_read_bind [Std.Refl G] {view : σ → β} {f : β → Prog σ ε α} {s : σ}
    (h : ∀ s', I s' → R s s' → Keeps I C G R Q (f (view s')) s') : Keeps I C G R Q (read view >>= f) s :=
  fun s' hi hs _ => ⟨hi, refl_of G s', h s' hi hs⟩

theorem keeps_transact_bind {g : σ → Except ε β × σ} {f : β → Prog σ ε α} {s : σ}
    (h : ∀ s', I s' → R s s' → C s' (g s').2 →
      I (g s').2 ∧ G s' (g s').2 ∧ ∀ b, (g s').1 = .ok b → Keeps I C G R Q (f b) (g s').2) :
    Keeps I C G R Q (transact g >>= f) s := by
  intro s' hi hs hc
  obtain ⟨hi', hg, hnext⟩ := h s' hi hs hc
  exact ⟨hi', hg, keeps_ofExcept_bind hnext⟩

/-! ### Programs that never fail -/

/-- What holds of a program that keeps `I` as `Keeps` says, and never fails. -/
def Succeeds (I : σ → Prop) (C G R : σ → σ → Prop) (Q : α → σ → Prop) : Prog σ ε α → σ → Prop
  | done a, s => ∀ s', I s' → R s s' → Q a s'
  | fail _, _ => False
  | step write next, s =>
    ∀ s', I s' → R s s' → C s' (write s') →
      I (write s') ∧ G s' (write s') ∧ Succeeds I C G R Q (next s') (write s')

theorem Succeeds.keeps {p : Prog σ ε α} {s : σ} (h : Succeeds I C G R Q p s) : Keeps I C G R Q p s := by
  induction p generalizing s with
  | done a => exact h
  | fail e => trivial
  | step write next ih =>
    intro s' hi hs hc
    obtain ⟨hi', hg, hnext⟩ := h s' hi hs hc
    exact ⟨hi', hg, ih s' hnext⟩

theorem Succeeds.attempt {ε' : Type} {p : Prog σ ε α} {s : σ} (h : Succeeds I C G R Q p s) :
    Keeps I C G R (fun x s => ∃ a, x = .ok a ∧ Q a s) (p.attempt : Prog σ ε' (Except ε α)) s := by
  induction p generalizing s with
  | done a => exact fun s' hi hs => ⟨a, rfl, h s' hi hs⟩
  | fail e => exact h.elim
  | step write next ih =>
    intro s' hi hs hc
    obtain ⟨hi', hg, hnext⟩ := h s' hi hs hc
    exact ⟨hi', hg, ih s' hnext⟩

theorem succeeds_bind [Std.Refl R] {P : β → σ → Prop} {p : Prog σ ε β} {f : β → Prog σ ε α} {s : σ} (hi : I s)
    (hp : Succeeds I C G R P p s) (hf : ∀ b s, I s → P b s → Succeeds I C G R Q (f b) s) :
    Succeeds I C G R Q (p >>= f) s := by
  induction p generalizing s with
  | done b => exact hf b s hi (hp s hi (refl_of R s))
  | fail e => exact hp.elim
  | step write next ih =>
    intro s' hi' hs hc
    obtain ⟨hi₁, hg, hnext⟩ := hp s' hi' hs hc
    exact ⟨hi₁, hg, ih s' hi₁ hnext⟩

theorem succeeds_read_bind [Std.Refl G] {view : σ → β} {f : β → Prog σ ε α} {s : σ}
    (h : ∀ s', I s' → R s s' → Succeeds I C G R Q (f (view s')) s') : Succeeds I C G R Q (read view >>= f) s :=
  fun s' hi hs _ => ⟨hi, refl_of G s', h s' hi hs⟩

end

end Prog

/-! ## Pools -/

/-- The state and the programs in the order they started. A lost program is
one that makes no more steps. -/
structure Pool (σ ε α : Type) where
  state : σ
  tasks : List (Prog σ ε α)

namespace Pool

open Prog

variable {σ ε α : Type}

/-- One thing that happens to a pool: a program that may be its `n`-th starts,
a program makes a step, or the outside moves the state. -/
inductive Next (requests : Nat → Prog σ ε α → Prop) (outside : σ → σ → Prop) : Pool σ ε α → Pool σ ε α → Prop where
  | start (s : σ) (tasks : List (Prog σ ε α)) (p : Prog σ ε α) :
      requests tasks.length p → Next requests outside ⟨s, tasks⟩ ⟨s, tasks ++ [p]⟩
  | act (s : σ) (tasks : List (Prog σ ε α)) (n : Nat) (write : σ → σ) (next : σ → Prog σ ε α) :
      tasks[n]? = some (step write next) → Next requests outside ⟨s, tasks⟩ ⟨write s, tasks.set n (next s)⟩
  | move (s s' : σ) (tasks : List (Prog σ ε α)) : outside s s' → Next requests outside ⟨s, tasks⟩ ⟨s', tasks⟩

section
variable (requests : Nat → Prog σ ε α → Prop) (outside : σ → σ → Prop)

/-- What happens to a pool, in any order. -/
def Steps : Pool σ ε α → Pool σ ε α → Prop := ReflTransGen (Next requests outside)

/-- A run whose moves of the state are all in `C`. -/
def StepsIn (C : σ → σ → Prop) : Pool σ ε α → Pool σ ε α → Prop :=
  ReflTransGen fun pool pool' => Next requests outside pool pool' ∧ C pool.state pool'.state

end

section
variable {requests : Nat → Prog σ ε α → Prop} {outside : σ → σ → Prop} {I : σ → Prop} {C : σ → σ → Prop}
  {G R : Nat → σ → σ → Prop} {Q : α → σ → Prop}

/-- The invariant holds, and every program of the pool keeps it, the `n`-th by
steps in `G n` among steps of others in `R n`. -/
def Good (I : σ → Prop) (C : σ → σ → Prop) (G R : Nat → σ → σ → Prop) (Q : α → σ → Prop) (pool : Pool σ ε α) : Prop :=
  I pool.state ∧ ∀ n p, pool.tasks[n]? = some p → Keeps I C (G n) (R n) Q p pool.state

/-- What the programs and the outside owe each other. -/
structure Agree (requests : Nat → Prog σ ε α → Prop) (outside : σ → σ → Prop) (I : σ → Prop) (C : σ → σ → Prop)
    (G R : Nat → σ → σ → Prop) (Q : α → σ → Prop) : Prop where
  refl n : Std.Refl (R n)
  trans n : IsTrans σ (R n)
  start {n p s} : requests n p → I s → Keeps I C (G n) (R n) Q p s
  others {m n s s'} : m ≠ n → I s → I s' → G m s s' → R n s s'
  outside {s s'} : outside s s' → I s → I s' ∧ ∀ n, R n s s'

theorem good_start {s : σ} (hi : I s) : Good I C G R Q (⟨s, []⟩ : Pool σ ε α) := ⟨hi, by simp⟩

theorem Good.next (h : Agree requests outside I C G R Q) {pool pool' : Pool σ ε α} (hgood : pool.Good I C G R Q)
    (hnext : Next requests outside pool pool') (hc : C pool.state pool'.state) : pool'.Good I C G R Q := by
  obtain ⟨hi, htasks⟩ := hgood
  have := h.refl
  have := h.trans
  cases hnext with
  | start s tasks p hp =>
    refine ⟨hi, fun n q hq => ?_⟩
    rcases Nat.lt_trichotomy n tasks.length with hn | rfl | hn
    · exact htasks n q (by simpa [List.getElem?_append_left hn] using hq)
    · obtain rfl : p = q := by simpa using hq
      exact h.start hp hi
    · rw [List.getElem?_eq_none (by simp; omega)] at hq
      cases hq
  | act s tasks m write next hm =>
    obtain ⟨hi', hg, hkeeps⟩ := htasks m _ hm s hi (refl_of (R m) s) hc
    refine ⟨hi', fun n q hq => ?_⟩
    by_cases hmn : m = n
    · subst hmn
      rw [List.getElem?_set_self (List.getElem?_eq_some_iff.mp hm).1] at hq
      cases hq
      exact hkeeps
    · rw [List.getElem?_set_ne hmn] at hq
      exact (htasks n q hq).weaken (h.others hmn hi hi' hg)
  | move s s' tasks hmove =>
    obtain ⟨hi', hr⟩ := h.outside hmove hi
    exact ⟨hi', fun n q hq => (htasks n q hq).weaken (hr n)⟩

/-- A step of a good pool moves the state by what a program guarantees, or by the outside. -/
theorem Good.next_state {pool pool' : Pool σ ε α} (hgood : pool.Good I C G R Q) (hrefl : ∀ n, Std.Refl (R n))
    (hnext : Next requests outside pool pool') (hc : C pool.state pool'.state) :
    pool'.state = pool.state ∨ (∃ n, G n pool.state pool'.state) ∨ outside pool.state pool'.state := by
  have := hrefl
  cases hnext with
  | start s tasks p hp => exact .inl rfl
  | act s tasks n write next hn =>
    exact .inr (.inl ⟨n, (hgood.2 n _ hn s hgood.1 (refl_of (R n) s) hc).2.1⟩)
  | move s s' tasks hmove => exact .inr (.inr hmove)

/-- Whatever the order of the steps, a pool whose steps are in `C` stays good. -/
theorem Good.stepsIn (h : Agree requests outside I C G R Q) {pool pool' : Pool σ ε α} (hgood : pool.Good I C G R Q)
    (hsteps : StepsIn requests outside C pool pool') : pool'.Good I C G R Q := by
  induction hsteps with
  | refl => exact hgood
  | tail _ hnext ih => exact ih.next h hnext.1 hnext.2

theorem Good.steps (h : Agree requests outside I (fun _ _ => True) G R Q) {pool pool' : Pool σ ε α}
    (hgood : pool.Good I (fun _ _ => True) G R Q) (hsteps : Steps requests outside pool pool') :
    pool'.Good I (fun _ _ => True) G R Q := by
  induction hsteps with
  | refl => exact hgood
  | tail _ hnext ih => exact ih.next h hnext trivial

/-- What every step of a program and of the outside keeps, a run keeps. -/
theorem Good.steps_state (h : Agree requests outside I (fun _ _ => True) G R Q) {P : σ → σ → Prop} [Std.Refl P]
    [IsTrans σ P] (hG : ∀ n s s', G n s s' → P s s') (houtside : ∀ s s', I s → outside s s' → P s s')
    {pool pool' : Pool σ ε α} (hgood : pool.Good I (fun _ _ => True) G R Q)
    (hsteps : Steps requests outside pool pool') : P pool.state pool'.state := by
  induction hsteps with
  | refl => exact refl_of P _
  | tail hsteps hnext ih =>
    refine trans_of P ih ?_
    rcases (hgood.steps h hsteps).next_state h.refl hnext trivial with hsame | ⟨n, hg⟩ | hmove
    · rw [hsame]
      exact refl_of P _
    · exact hG n _ _ hg
    · exact houtside _ _ (hgood.steps h hsteps).1 hmove

/-! ## Given orders of steps -/

/-- The pool after `p` started. -/
def starting (p : Prog σ ε α) (pool : Pool σ ε α) : Pool σ ε α := ⟨pool.state, pool.tasks ++ [p]⟩

/-- The pool after the outside moved its state. -/
def moving (f : σ → σ) (pool : Pool σ ε α) : Pool σ ε α := ⟨f pool.state, pool.tasks⟩

/-- The pool after its `n`-th program made a step, if it has one to make. -/
def turn (n : Nat) (pool : Pool σ ε α) : Pool σ ε α :=
  match pool.tasks[n]? with
  | some (.step write next) => ⟨write pool.state, pool.tasks.set n (next pool.state)⟩
  | _ => pool

/-- The programs take turns in a given order. -/
def turns (order : List Nat) (pool : Pool σ ε α) : Pool σ ε α := order.foldl (fun pool n => pool.turn n) pool

@[simp] theorem length_starting (p : Prog σ ε α) (pool : Pool σ ε α) :
    (pool.starting p).tasks.length = pool.tasks.length + 1 := List.length_append

@[simp] theorem length_turn (n : Nat) (pool : Pool σ ε α) : (pool.turn n).tasks.length = pool.tasks.length := by
  unfold turn
  split
  · exact List.length_set
  · rfl

@[simp] theorem length_turns (order : List Nat) (pool : Pool σ ε α) :
    (pool.turns order).tasks.length = pool.tasks.length := by
  induction order generalizing pool with
  | nil => rfl
  | cons n order ih => exact (ih (pool.turn n)).trans (length_turn n pool)

theorem starting_next {p : Prog σ ε α} (pool : Pool σ ε α) (hp : requests pool.tasks.length p) :
    Next requests outside pool (pool.starting p) := .start pool.state pool.tasks p hp

theorem moving_next (f : σ → σ) (pool : Pool σ ε α) (hf : outside pool.state (f pool.state)) :
    Next requests outside pool (pool.moving f) := .move pool.state (f pool.state) pool.tasks hf

theorem turn_next (n : Nat) (pool : Pool σ ε α) :
    pool.turn n = pool ∨ Next requests outside pool (pool.turn n) := by
  unfold turn
  split
  · next write next htask => exact .inr (.act pool.state pool.tasks n write next htask)
  · exact .inl rfl

theorem turns_steps (order : List Nat) (pool : Pool σ ε α) : Steps requests outside pool (pool.turns order) := by
  induction order generalizing pool with
  | nil => exact .refl
  | cons n order ih =>
    rcases @turn_next σ ε α requests outside n pool with hsame | hnext
    · have h := ih pool
      rw [turns, List.foldl_cons, hsame]
      exact h
    · exact .head hnext (ih (pool.turn n))

section
variable {first pool : Pool σ ε α} (h : Steps requests outside first pool)
include h

theorem Steps.starting {p : Prog σ ε α} (hp : requests pool.tasks.length p) :
    Steps requests outside first (pool.starting p) := h.tail (starting_next pool hp)

theorem Steps.moving (f : σ → σ) (hf : outside pool.state (f pool.state)) :
    Steps requests outside first (pool.moving f) := h.tail (moving_next f pool hf)

theorem Steps.turns (order : List Nat) : Steps requests outside first (pool.turns order) :=
  h.trans (turns_steps order pool)

end

/-- Turns all of whose steps are in `C`. -/
theorem turns_stepsIn (order : List Nat) (pool : Pool σ ε α)
    (h : ∀ k < order.length, C (pool.turns (order.take k)).state (pool.turns (order.take (k + 1))).state) :
    StepsIn requests outside C pool (pool.turns order) := by
  induction order generalizing pool with
  | nil => exact .refl
  | cons n order ih =>
    have hrest : StepsIn requests outside C (pool.turn n) ((pool.turn n).turns order) :=
      ih (pool.turn n) fun k hk => h (k + 1) (Nat.succ_lt_succ hk)
    rcases @turn_next σ ε α requests outside n pool with hsame | hnext
    · have hturns : pool.turns (n :: order) = (pool.turn n).turns order := rfl
      rw [hsame] at hrest hturns
      rw [hturns]
      exact hrest
    · exact .head ⟨hnext, h 0 (Nat.zero_lt_succ _)⟩ hrest

end

end Pool
