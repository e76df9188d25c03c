import Omapkg.Lib.Prog
/-!
# Programs that are run again

A program draws what a run of it is free to choose, such as new ids, at places
of its own. `Again` says that it can stop anywhere and be run again: the second
run, with draws of its own, goes the way of one run that was never stopped.
-/

namespace Prog

variable {σ ε α β : Type}

/-! ## Where programs stop -/

/-- The program can stop in `t` when it starts in `s`. -/
def Stops (p : Prog σ ε α) (s t : σ) : Prop := ∃ n, p.stop n s = t

theorem stops_start (p : Prog σ ε α) (s : σ) : Stops p s s := ⟨0, stop_zero p s⟩

theorem stops_end {p : Prog σ ε α} {x : Except ε α} {s t : σ} (h : p.run s = (x, t)) : Stops p s t := by
  obtain ⟨n, hn⟩ := exists_stop p s
  exact ⟨n, by rw [hn, h]⟩

theorem stops_step {write : σ → σ} {next : σ → Prog σ ε α} {s t : σ} :
    Stops (step write next) s t ↔ t = s ∨ Stops (next s) (write s) t := by
  constructor
  · rintro ⟨_ | n, rfl⟩
    · exact .inl (stop_zero _ s)
    · exact .inr ⟨n, rfl⟩
  · rintro (rfl | ⟨n, rfl⟩)
    · exact stops_start _ t
    · exact ⟨n + 1, rfl⟩

theorem stops_done {a : α} {s t : σ} : Stops (done a : Prog σ ε α) s t ↔ t = s := by
  constructor
  · rintro ⟨_ | n, rfl⟩ <;> rfl
  · rintro rfl
    exact stops_start _ t

theorem stops_fail {e : ε} {s t : σ} : Stops (fail e : Prog σ ε α) s t ↔ t = s := by
  constructor
  · rintro ⟨_ | n, rfl⟩ <;> rfl
  · rintro rfl
    exact stops_start _ t

/-- A sequence stops in its first program, or after it. -/
theorem stops_bind {p : Prog σ ε β} {f : β → Prog σ ε α} {s t : σ} :
    Stops (p >>= f) s t ↔ Stops p s t ∨ ∃ b s', p.run s = (.ok b, s') ∧ Stops (f b) s' t := by
  induction p generalizing s with
  | done b =>
    refine ⟨fun h => .inr ⟨b, s, rfl, h⟩, ?_⟩
    rintro (h | ⟨b', s', hrun, h⟩)
    · obtain rfl := stops_done.mp h
      exact stops_start _ t
    · cases hrun
      exact h
  | fail e =>
    have hfail : Stops (fail e >>= f) s t ↔ t = s := stops_fail
    rw [hfail, stops_fail]
    refine ⟨fun h => .inl h, ?_⟩
    rintro (h | ⟨b', s', hrun, -⟩)
    · exact h
    · cases hrun
  | step write next ih =>
    have hbind : Stops (step write next >>= f) s t ↔ t = s ∨ Stops (next s >>= f) (write s) t := stops_step
    rw [hbind, stops_step, ih, or_assoc]
    rfl

theorem stops_ofExcept {x : Except ε α} {s t : σ} : Stops (ofExcept x) s t ↔ t = s := by
  cases x with
  | ok a => exact stops_done
  | error e => exact stops_fail

theorem stops_read_bind {view : σ → β} {f : β → Prog σ ε α} {s t : σ} :
    Stops (read view >>= f) s t ↔ t = s ∨ Stops (f (view s)) s t := stops_step

theorem bind_assoc {γ : Type} (p : Prog σ ε β) (f : β → Prog σ ε γ) (g : γ → Prog σ ε α) :
    (p >>= f) >>= g = p >>= fun b => f b >>= g := by
  induction p with
  | done b => rfl
  | fail e => rfl
  | step write next ih => exact congrArg (step write) (funext ih)

/-- Wherever the program stops, it has moved the state by `G`. -/
def Moves (G : σ → σ → Prop) (p : Prog σ ε α) : Prop := ∀ s t, Stops p s t → G s t

section
variable {G : σ → σ → Prop}

theorem Moves.bind [IsTrans σ G] {p : Prog σ ε β} {f : β → Prog σ ε α} (hp : Moves G p) (hf : ∀ b, Moves G (f b)) :
    Moves G (p >>= f) := by
  intro s t ht
  rcases stops_bind.mp ht with ht | ⟨b, s', hrun, ht⟩
  · exact hp s t ht
  · exact trans_of G (hp s s' (stops_end hrun)) (hf b s' t ht)

theorem moves_ofExcept [Std.Refl G] (x : Except ε α) : Moves G (ofExcept x : Prog σ ε α) := by
  intro s t ht
  obtain rfl := stops_ofExcept.mp ht
  exact refl_of G t

theorem Moves.mono {G' : σ → σ → Prop} {p : Prog σ ε α} (h : Moves G p) (hG : ∀ s t, G s t → G' s t) : Moves G' p :=
  fun s t ht => hG s t (h s t ht)

end

/-! ## Going another program's way -/

/-- `p` from `s` ends as `q` from `t`, and stops only where that can. -/
def Follows (p : Prog σ ε α) (s : σ) (q : Prog σ ε α) (t : σ) : Prop :=
  p.run s = q.run t ∧ ∀ u, Stops p s u → Stops q t u

/-- The program has nothing left to do in `s` but to answer. -/
def Settled (p : Prog σ ε α) (a : α) (s : σ) : Prop := p.run s = (.ok a, s) ∧ ∀ t, Stops p s t → t = s

theorem Follows.refl (p : Prog σ ε α) (s : σ) : Follows p s p s := ⟨rfl, fun _ h => h⟩

theorem run_bind_eq (p : Prog σ ε β) (f : β → Prog σ ε α) (s : σ) :
    (p >>= f).run s = match p.run s with
      | (.ok b, s') => (f b).run s'
      | (.error e, s') => (.error e, s') := run_bind p f s

theorem Follows.bind {p q : Prog σ ε β} {f g : β → Prog σ ε α} {s t : σ} (h : Follows p s q t)
    (hfg : ∀ b u, q.run t = (.ok b, u) → Follows (f b) u (g b) u) : Follows (p >>= f) s (q >>= g) t := by
  obtain ⟨hrun, hstops⟩ := h
  refine ⟨?_, fun u hu => ?_⟩
  · rw [run_bind_eq, run_bind_eq, hrun]
    rcases hq : q.run t with ⟨e | b, u⟩
    · rfl
    · exact (hfg b u hq).1
  · rw [stops_bind] at hu ⊢
    rcases hu with hu | ⟨b, s', hp, hu⟩
    · exact .inl (hstops u hu)
    · exact .inr ⟨b, s', hrun ▸ hp, (hfg b s' (hrun ▸ hp)).2 u hu⟩

/-- What is done already is passed over. -/
theorem Settled.follows {p q : Prog σ ε β} {f g : β → Prog σ ε α} {b : β} {s t u : σ} (hp : Settled p b s)
    (hq : q.run t = (.ok b, u)) (hfg : Follows (f b) s (g b) u) : Follows (p >>= f) s (q >>= g) t := by
  refine ⟨?_, fun v hv => ?_⟩
  · rw [run_bind_eq, run_bind_eq, hp.1, hq]
    exact hfg.1
  · rw [stops_bind] at hv ⊢
    refine .inr ⟨b, u, hq, hfg.2 v ?_⟩
    rcases hv with hv | ⟨b', s', hrun, hv⟩
    · obtain rfl := hp.2 v hv
      exact stops_start _ v
    · rw [hp.1] at hrun
      cases hrun
      exact hv

theorem Settled.bind {p : Prog σ ε β} {f : β → Prog σ ε α} {b : β} {a : α} {s : σ} (hp : Settled p b s)
    (hf : Settled (f b) a s) : Settled (p >>= f) a s := by
  refine ⟨?_, fun t ht => ?_⟩
  · rw [run_bind_eq, hp.1]
    exact hf.1
  · rcases stops_bind.mp ht with ht | ⟨b', s', hrun, ht⟩
    · exact hp.2 t ht
    · rw [hp.1] at hrun
      cases hrun
      exact hf.2 t ht

/-! ## Draws -/

/-- What the runs of a program draw, by place. -/
abbrev Draws (ι δ : Type) := ι → δ

/-- The program draws at places of `S` only. -/
def DrawsAt {ι δ : Type} (S : ι → Prop) (p : Draws ι δ → Prog σ ε α) : Prop :=
  ∀ ω ω' : Draws ι δ, (∀ i, S i → ω i = ω' i) → p ω = p ω'

section
variable {ι δ : Type} {S T : ι → Prop} {G R : σ → σ → Prop}

/-- A program that can be run again: its steps are in `G`; wherever it stopped,
a run with other draws goes the way of a run from the start, which has drawn
the same outside of `S`; and while the state moves by `R`, nothing is left to do
for it once it has come to its end. -/
structure Again (S : ι → Prop) (D : δ → Prop) (G R : σ → σ → Prop) (p : Draws ι δ → Prog σ ε α) : Prop where
  drawsAt : DrawsAt S p
  moves : ∀ ω, Moves G (p ω)
  resumes : ∀ ω ω₂ : Draws ι δ, (∀ i, D (ω i)) → (∀ i, D (ω₂ i)) → ∀ s t, Stops (p ω) s t →
    ∃ ω', (∀ i, D (ω' i)) ∧ (∀ i, ¬S i → ω' i = ω₂ i) ∧ Follows (p ω₂) t (p ω') s
  settles : ∀ ω ω₂ s s' a, (p ω).run s = (.ok a, s') → ∀ t, R s' t → Settled (p ω₂) a t

theorem Again.of_same {p : Prog σ ε α} {D : δ → Prop} (hmoves : Moves G p)
    (hresumes : ∀ s t, Stops p s t → Follows p t p s)
    (hsettles : ∀ s s' a, p.run s = (.ok a, s') → ∀ t, R s' t → Settled p a t) :
    Again (fun _ => False) D G R fun _ : Draws ι δ => p where
  drawsAt _ _ _ := rfl
  moves _ := hmoves
  resumes _ ω₂ _ hω₂ s t ht := ⟨ω₂, hω₂, fun _ _ => rfl, hresumes s t ht⟩
  settles _ _ := hsettles

/-- A program with one step that counts: it stops before it or is done. -/
theorem Again.of_once [Std.Refl R] [DecidablePred S] {D : δ → Prop} {p : Draws ι δ → Prog σ ε α} (hdraws : DrawsAt S p)
    (hmoves : ∀ ω, Moves G (p ω))
    (honce : ∀ ω s t, Stops (p ω) s t → t = s ∨ ∃ a, (p ω).run s = (.ok a, t))
    (hsettles : ∀ ω ω₂ s s' a, (p ω).run s = (.ok a, s') → ∀ t, R s' t → Settled (p ω₂) a t) : Again S D G R p where
  drawsAt := hdraws
  moves := hmoves
  resumes ω ω₂ hω hω₂ s t ht := by
    rcases honce ω s t ht with rfl | ⟨a, hrun⟩
    · exact ⟨ω₂, hω₂, fun _ _ => rfl, .refl _ _⟩
    · -- what it drew is stored, so the second run need not draw again
      refine ⟨fun i => if S i then ω i else ω₂ i, fun i => ?_, fun i hi => if_neg hi, ?_⟩
      · dsimp only
        split
        · exact hω i
        · exact hω₂ i
      · rw [hdraws _ ω fun i hi => if_pos hi]
        have hsettled : Settled (p ω₂) a t := hsettles ω ω₂ s t a hrun t (refl_of R t)
        refine ⟨hsettled.1.trans hrun.symm, fun u hu => ?_⟩
        obtain rfl := hsettled.2 u hu
        exact stops_end hrun
  settles := hsettles

theorem Again.ofExcept [Std.Refl G] {D : δ → Prop} (x : Except ε α) :
    Again (fun _ => False) D G R fun _ : Draws ι δ => (ofExcept x : Prog σ ε α) := by
  refine .of_same (fun s t ht => ?_) (fun s t ht => ?_) fun s s' a hrun t _ => ?_
  · obtain rfl := stops_ofExcept.mp ht
    exact refl_of G t
  · obtain rfl := stops_ofExcept.mp ht
    exact .refl _ _
  · cases x with
    | error e => cases hrun
    | ok b =>
      cases hrun
      exact ⟨rfl, fun u hu => stops_done.mp hu⟩

/-- Programs that draw at different places can be run again one after the other. -/
theorem Again.bind [IsTrans σ G] [IsTrans σ R] [DecidablePred S] {D : δ → Prop} {p : Draws ι δ → Prog σ ε β}
    {f : β → Draws ι δ → Prog σ ε α} (hGR : ∀ s t, G s t → R s t) (hST : ∀ i, T i → ¬S i) (hp : Again S D G R p)
    (hf : ∀ b, Again T D G R (f b)) : Again (fun i => S i ∨ T i) D G R fun ω => p ω >>= fun b => f b ω where
  drawsAt ω ω' h := by
    have hfirst : p ω = p ω' := hp.drawsAt ω ω' fun i hi => h i (.inl hi)
    have hrest : (fun b => f b ω) = fun b => f b ω' := funext fun b => (hf b).drawsAt ω ω' fun i hi => h i (.inr hi)
    show (p ω >>= fun b => f b ω) = p ω' >>= fun b => f b ω'
    rw [hfirst, hrest]
  moves ω := (hp.moves ω).bind fun b => (hf b).moves ω
  resumes ω ω₂ hω hω₂ s t ht := by
    rcases stops_bind.mp ht with ht | ⟨b, s', hrun, ht⟩
    · obtain ⟨ω', hω', hsame, hfollows⟩ := hp.resumes ω ω₂ hω hω₂ s t ht
      refine ⟨ω', hω', fun i hi => hsame i fun h => hi (.inl h), hfollows.bind fun b u _ => ?_⟩
      rw [(hf b).drawsAt ω₂ ω' fun i hi => (hsame i (hST i hi)).symm]
      exact .refl _ _
    · obtain ⟨ω', hω', hsame, hfollows⟩ := (hf b).resumes ω ω₂ hω hω₂ s' t ht
      have hsettled : Settled (p ω₂) b t := hp.settles ω ω₂ s s' b hrun t (hGR _ _ ((hf b).moves ω s' t ht))
      refine ⟨fun i => if S i then ω i else ω' i, fun i => ?_, fun i hi => ?_, ?_⟩
      · dsimp only
        split
        · exact hω i
        · exact hω' i
      · refine (if_neg fun h => hi (.inl h)).trans ?_
        exact hsame i fun h => hi (.inr h)
      · rw [hp.drawsAt _ ω fun i hi => if_pos hi]
        refine hsettled.follows hrun ?_
        rw [(hf b).drawsAt _ ω' fun i hi => if_neg (hST i hi)]
        exact hfollows
  settles ω ω₂ s s'' a hrun t ht := by
    obtain ⟨b, s', hfirst, hrest⟩ := run_bind_ok.mp hrun
    have hmoves : G s' s'' := (hf b).moves ω s' s'' (stops_end hrest)
    exact (hp.settles ω ω₂ s s' b hfirst t (trans_of R (hGR _ _ hmoves) ht)).bind
      ((hf b).settles ω ω₂ s' s'' a hrest t ht)

theorem Again.congr {D : δ → Prop} {p q : Draws ι δ → Prog σ ε α} (h : Again S D G R p) (hpq : ∀ ω, p ω = q ω) :
    Again S D G R q := by
  obtain rfl : p = q := funext hpq
  exact h

theorem Again.mono {D : δ → Prop} {p : Draws ι δ → Prog σ ε α} (h : Again S D G R p) (hST : ∀ i, S i → T i) :
    Again T D G R p where
  drawsAt ω ω' hsame := h.drawsAt ω ω' fun i hi => hsame i (hST i hi)
  moves := h.moves
  resumes ω ω₂ hω hω₂ s t ht := by
    obtain ⟨ω', hω', hsame, hfollows⟩ := h.resumes ω ω₂ hω hω₂ s t ht
    exact ⟨ω', hω', fun i hi => hsame i fun hs => hi (hST i hs), hfollows⟩
  settles := h.settles

end

end Prog
