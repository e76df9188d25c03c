import Mathlib.Data.List.Basic
import Mathlib.Data.List.Nodup
import Mathlib.Tactic.Common
import Omapkg.Lib.Fallible
import Omapkg.Lib.Pool
/-!
# Batches over tables

A table is the list of its rows. A statement finds the database and the number
of rows the statement before it changed, and changes rows or raises. A batch
is all of its statements or none of them.
-/

namespace Sql

/-- What a broken constraint or a trigger raises. -/
structure Raised where
  message : String
  deriving DecidableEq

/-! ## Tables -/

section
variable {α : Type}

/-- `UPDATE … SET f WHERE p`, and how many rows that changed. -/
def update (p : α → Bool) (f : α → α) (rows : List α) : List α × Nat :=
  (rows.map fun row => if p row then f row else row, rows.countP p)

/-- An update that finds no row leaves them all. -/
theorem update_none {p : α → Bool} {f : α → α} {rows : List α} (h : ∀ a ∈ rows, p a = false) :
    update p f rows = (rows, 0) := by
  have hmap : (rows.map fun row => if p row then f row else row) = rows := by
    rw [List.map_congr_left (g := id) fun a ha => by simp [h a ha], List.map_id]
  have hcount : rows.countP p = 0 := List.countP_eq_zero.mpr fun a ha => by simp [h a ha]
  rw [update, hmap, hcount]

theorem update_none_of_zero {p : α → Bool} {f : α → α} {rows : List α} (h : (update p f rows).2 = 0) :
    (update p f rows).1 = rows := by
  rw [update_none fun a ha => by simpa using List.countP_eq_zero.mp h a ha]

/-- What an update leaves alone commutes with it. -/
theorem filter_update {p q : α → Bool} {f : α → α} (hf : ∀ a, p a = true → q (f a) = q a) (rows : List α) :
    (update p f rows).1.filter q = (update p f (rows.filter q)).1 := by
  have hq : q ∘ (fun row => if p row then f row else row) = q := by
    funext row
    by_cases hp : p row <;> simp [hp, hf]
  rw [update, update, List.filter_map, hq]

theorem map_update {β : Type} {p : α → Bool} {f : α → α} {key : α → β} (hf : ∀ a, p a = true → key (f a) = key a)
    (rows : List α) : (update p f rows).1.map key = rows.map key := by
  rw [update, List.map_map]
  refine List.map_congr_left fun row _ => ?_
  by_cases hp : p row <;> simp [hp, hf]

theorem mem_update {p : α → Bool} {f : α → α} {rows : List α} {b : α} :
    b ∈ (update p f rows).1 ↔ ∃ a ∈ rows, b = if p a then f a else a := by
  rw [update, List.mem_map]
  exact exists_congr fun a => and_congr_right fun _ => eq_comm

/-- An update of rows with one value of a unique key changes one row at most. -/
theorem update_le_one {β : Type} {p : α → Bool} {f : α → α} {key : α → β} {rows : List α} {k : β}
    (hkey : (rows.map key).Nodup) (hp : ∀ a ∈ rows, p a = true → key a = k) : (update p f rows).2 ≤ 1 := by
  have hle : (rows.filter p).length ≤ 1 := by
    have hnodup : ((rows.filter p).map key).Nodup := hkey.sublist (List.filter_sublist.map key)
    rcases hfound : rows.filter p with _ | ⟨a, _ | ⟨b, rest⟩⟩
    · simp
    · simp
    · have ha : key a = k := by
        have hmem : a ∈ rows.filter p := by simp [hfound]
        exact hp a (List.mem_filter.mp hmem).1 (List.mem_filter.mp hmem).2
      have hb : key b = k := by
        have hmem : b ∈ rows.filter p := by simp [hfound]
        exact hp b (List.mem_filter.mp hmem).1 (List.mem_filter.mp hmem).2
      rw [hfound] at hnodup
      simp [ha, hb] at hnodup
  rwa [update, List.countP_eq_length_filter]

theorem exists_of_update {p : α → Bool} {f : α → α} {rows : List α} (h : (update p f rows).2 ≠ 0) :
    ∃ a ∈ rows, p a = true := by
  by_contra hnone
  apply h
  rw [update_none]
  intro a ha
  by_contra hp
  exact hnone ⟨a, ha, by simpa using hp⟩

/-- `DELETE … WHERE p`. -/
def delete (p : α → Bool) (rows : List α) : List α × Nat := (rows.filter fun row => !p row, rows.countP p)

/-- `INSERT` of a row that clashes with those of a unique key. -/
def insert (clashes : α → Bool) (message : String) (row : α) (rows : List α) : Except Raised (List α × Nat) :=
  if rows.any clashes then .error ⟨message⟩ else .ok (rows ++ [row], 1)

theorem insert_ok {clashes : α → Bool} {message : String} {row : α} {rows rows' : List α} {n : Nat} :
    insert clashes message row rows = .ok (rows', n) ↔
      (∀ r ∈ rows, clashes r = false) ∧ rows' = rows ++ [row] ∧ n = 1 := by
  unfold insert
  cases h : rows.any clashes with
  | true =>
    obtain ⟨r, hr, hclash⟩ := List.any_eq_true.mp h
    refine ⟨fun he => (nomatch he), fun ⟨hall, _⟩ => ?_⟩
    rw [hall r hr] at hclash
    cases hclash
  | false =>
    have hall : ∀ r ∈ rows, clashes r = false := fun r hr => by simpa using List.any_eq_false.mp h r hr
    refine ⟨fun he => ⟨hall, ?_⟩, fun ⟨_, hrows, hn⟩ => by rw [hrows, hn]; rfl⟩
    cases he
    exact ⟨rfl, rfl⟩

end

/-! ## Batches -/

section
variable {σ : Type}

/-- From the database and the rows last changed to those after it. -/
abbrev Statement (σ : Type) := σ → Nat → Except Raised (σ × Nat)

/-- Runs statements in order; the numbers are the rows each has changed. -/
def runAll : List (Statement σ) → σ → Nat → Except Raised (σ × List Nat)
  | [], s, _ => .ok (s, [])
  | statement :: rest, s, n => do
    let (s, n) ← statement s n
    let (s, ns) ← runAll rest s n
    .ok (s, n :: ns)

@[simp] theorem runAll_nil_ok {s s' : σ} {n : Nat} {ns : List Nat} :
    runAll [] s n = .ok (s', ns) ↔ s' = s ∧ ns = [] := by
  simp only [runAll, Except.ok.injEq, Prod.mk.injEq]
  exact and_congr eq_comm eq_comm

theorem runAll_cons_ok {statement : Statement σ} {rest : List (Statement σ)} {s s' : σ} {n : Nat} {ns : List Nat} :
    runAll (statement :: rest) s n = .ok (s', ns) ↔
      ∃ s₁ n₁ ns₁, statement s n = .ok (s₁, n₁) ∧ runAll rest s₁ n₁ = .ok (s', ns₁) ∧ ns = n₁ :: ns₁ := by
  simp only [runAll, Fallible.bind_ok, Prod.exists, Except.ok.injEq, Prod.mk.injEq]
  constructor
  · rintro ⟨s₁, n₁, hfirst, s₂, ns₁, hrest, rfl, rfl⟩
    exact ⟨s₁, n₁, ns₁, hfirst, hrest, rfl⟩
  · rintro ⟨s₁, n₁, ns₁, hfirst, hrest, rfl⟩
    exact ⟨s₁, n₁, hfirst, s', ns₁, hrest, rfl, rfl⟩

/-- The rest finds what the first statements left, and how many rows the last of them changed. -/
theorem runAll_append_ok {before after : List (Statement σ)} {s s' : σ} {n : Nat} {ns : List Nat} :
    runAll (before ++ after) s n = .ok (s', ns) ↔ ∃ s₁ ns₁ ns₂, runAll before s n = .ok (s₁, ns₁) ∧
      runAll after s₁ (ns₁.getLastD n) = .ok (s', ns₂) ∧ ns = ns₁ ++ ns₂ := by
  induction before generalizing s n ns with
  | nil =>
    constructor
    · exact fun h => ⟨s, [], ns, rfl, h, rfl⟩
    · rintro ⟨s₁, ns₁, ns₂, hfirst, hrest, rfl⟩
      obtain ⟨rfl, rfl⟩ := runAll_nil_ok.mp hfirst
      exact hrest
  | cons statement before ih =>
    rw [List.cons_append, runAll_cons_ok]
    constructor
    · rintro ⟨s₁, n₁, ns₁, hfirst, hrest, rfl⟩
      obtain ⟨s₂, ms, ms', hbefore, hafter, rfl⟩ := ih.mp hrest
      exact ⟨s₂, n₁ :: ms, ms', runAll_cons_ok.mpr ⟨s₁, n₁, ms, hfirst, hbefore, rfl⟩,
        by rwa [List.getLastD_cons], rfl⟩
    · rintro ⟨s₂, ms, ms', hbefore, hafter, rfl⟩
      obtain ⟨s₁, n₁, ns₁, hfirst, hrest, rfl⟩ := runAll_cons_ok.mp hbefore
      rw [List.getLastD_cons] at hafter
      exact ⟨s₁, n₁, ns₁ ++ ms', hfirst, ih.mpr ⟨s₂, ns₁, ms', hrest, hafter, rfl⟩, rfl⟩

/-- What the first statements did, each by itself in `R`, and the rest from there. -/
theorem runAll_append {R : σ → σ → Prop} [Std.Refl R] [IsTrans σ R] {before after : List (Statement σ)}
    (hbefore : ∀ statement ∈ before, ∀ s n s' n', statement s n = .ok (s', n') → R s s') {s s' : σ} {n : Nat}
    {ns : List Nat} (h : runAll (before ++ after) s n = .ok (s', ns)) :
    ∃ s₁ n₁ ns₁, R s s₁ ∧ runAll after s₁ n₁ = .ok (s', ns₁) := by
  induction before generalizing s n ns with
  | nil => exact ⟨s, n, ns, refl_of R s, h⟩
  | cons statement before ih =>
    obtain ⟨s₁, n₁, ns₁, hfirst, hrest, -⟩ := runAll_cons_ok.mp h
    obtain ⟨s₂, n₂, ns₂, hr, hafter⟩ := ih (fun q hq => hbefore q (List.mem_cons_of_mem _ hq)) hrest
    exact ⟨s₂, n₂, ns₂, trans_of R (hbefore statement List.mem_cons_self s n s₁ n₁ hfirst) hr, hafter⟩

/-- What every statement does, they all do. -/
theorem runAll_all {R : σ → σ → Prop} [Std.Refl R] [IsTrans σ R] {statements : List (Statement σ)}
    (hall : ∀ statement ∈ statements, ∀ s n s' n', statement s n = .ok (s', n') → R s s') {s s' : σ} {n : Nat}
    {ns : List Nat} (h : runAll statements s n = .ok (s', ns)) : R s s' := by
  rw [← List.append_nil statements] at h
  obtain ⟨s₁, n₁, ns₁, hr, hnil⟩ := runAll_append hall h
  rw [runAll_nil_ok] at hnil
  rwa [hnil.1]

/-- A statement over one part of a larger database. -/
def Statement.on {τ : Type} (part : τ → σ) (put : τ → σ → τ) (statement : Statement σ) : Statement τ := fun t n => do
  let (s, n) ← statement (part t) n
  .ok (put t s, n)

theorem runAll_on_ok {τ : Type} {part : τ → σ} {put : τ → σ → τ} (hpart : ∀ t s, part (put t s) = s)
    (hput : ∀ t s s', put (put t s) s' = put t s') (hself : ∀ t, put t (part t) = t) {statements : List (Statement σ)}
    {t t' : τ} {n : Nat} {ns : List Nat} : runAll (statements.map (Statement.on part put)) t n = .ok (t', ns) ↔
      ∃ s, runAll statements (part t) n = .ok (s, ns) ∧ t' = put t s := by
  induction statements generalizing t n ns with
  | nil =>
    rw [List.map_nil, runAll_nil_ok]
    constructor
    · rintro ⟨rfl, rfl⟩
      exact ⟨part t', rfl, (hself t').symm⟩
    · rintro ⟨s, h, rfl⟩
      obtain ⟨rfl, rfl⟩ := runAll_nil_ok.mp h
      exact ⟨hself t, rfl⟩
  | cons statement statements ih =>
    rw [List.map_cons, runAll_cons_ok]
    constructor
    · rintro ⟨t₁, n₁, ns₁, hfirst, hrest, rfl⟩
      obtain ⟨⟨s₁, m⟩, hs, hok⟩ := Fallible.bind_ok.mp hfirst
      cases hok
      obtain ⟨s, hs', rfl⟩ := ih.mp hrest
      rw [hpart] at hs'
      exact ⟨s, runAll_cons_ok.mpr ⟨s₁, n₁, ns₁, hs, hs', rfl⟩, hput t s₁ s⟩
    · rintro ⟨s, h, rfl⟩
      obtain ⟨s₁, n₁, ns₁, hs, hs', rfl⟩ := runAll_cons_ok.mp h
      refine ⟨put t s₁, n₁, ns₁, Fallible.bind_ok.mpr ⟨(s₁, n₁), hs, rfl⟩, ih.mpr ⟨s, ?_, (hput t s₁ s).symm⟩, rfl⟩
      rw [hpart]
      exact hs'

/-- All the statements or none of them. -/
def batch (statements : List (Statement σ)) (s : σ) : Except Raised (List Nat) × σ :=
  match runAll statements s 0 with
  | .ok (s', ns) => (.ok ns, s')
  | .error e => (.error e, s)

/-- The batch as one step of a program. -/
def run {ε : Type} (statements : List (Statement σ)) (raise : Raised → ε) : Prog σ ε (List Nat) :=
  Prog.transact fun s =>
    match batch statements s with
    | (.ok ns, s') => (.ok ns, s')
    | (.error e, s') => (.error (raise e), s')

section
variable {ε α : Type} {statements : List (Statement σ)} {raise : Raised → ε} {f : List Nat → Prog σ ε α} {found : Nat → σ}

theorem answer_run_bind : (run statements raise >>= f).answer found = match (batch statements (found 0)).1 with
    | .ok ns => (f ns).answer fun n => found (n + 1)
    | .error e => .error (raise e) := by
  have hstep : (run statements raise >>= f).answer found = (Prog.ofExcept ((match batch statements (found 0) with
      | (.ok ns, s') => (.ok ns, s')
      | (.error e, s') => (.error (raise e), s') : Except ε (List Nat) × σ)).1 >>= f).answer fun n => found (n + 1) := rfl
  rw [hstep]
  rcases batch statements (found 0) with ⟨e | ns, s'⟩
  · rfl
  · rfl

/-- A batch is one step, and what follows comes after it. -/
theorem moves_run_bind : (run statements raise >>= f).moves found = (found 0, (batch statements (found 0)).2) ::
    match (batch statements (found 0)).1 with
    | .ok ns => (f ns).moves fun n => found (n + 1)
    | .error _ => [] := by
  have hstep : (run statements raise >>= f).moves found = (found 0, (match batch statements (found 0) with
      | (.ok ns, s') => (.ok ns, s')
      | (.error e, s') => (.error (raise e), s') : Except ε (List Nat) × σ).2) ::
      (Prog.ofExcept ((match batch statements (found 0) with
      | (.ok ns, s') => (.ok ns, s')
      | (.error e, s') => (.error (raise e), s') : Except ε (List Nat) × σ)).1 >>= f).moves fun n => found (n + 1) := rfl
  rw [hstep]
  rcases batch statements (found 0) with ⟨e | ns, s'⟩
  · rfl
  · rfl

end

theorem keeps_run_bind {ε α : Type} {I : σ → Prop} {C G R : σ → σ → Prop} {Q : α → σ → Prop} [Std.Refl G]
    {statements : List (Statement σ)} {raise : Raised → ε} {f : List Nat → Prog σ ε α} {s : σ}
    (h : ∀ s' s'' ns, I s' → R s s' → runAll statements s' 0 = .ok (s'', ns) → C s' s'' →
      I s'' ∧ G s' s'' ∧ Prog.Keeps I C G R Q (f ns) s'') :
    Prog.Keeps I C G R Q (run statements raise >>= f) s := by
  apply Prog.keeps_transact_bind
  intro s' hi hr hc
  unfold batch at *
  rcases hrun : runAll statements s' 0 with e | ⟨s'', ns⟩
  · simp only [hrun] at hc ⊢
    exact ⟨hi, refl_of G s', fun _ hok => nomatch hok⟩
  · simp only [hrun] at hc ⊢
    obtain ⟨hi', hg, hkeeps⟩ := h s' s'' ns hi hr hrun hc
    refine ⟨hi', hg, fun b hok => ?_⟩
    cases hok
    exact hkeeps

end

end Sql
