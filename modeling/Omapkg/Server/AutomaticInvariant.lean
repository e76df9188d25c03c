import Omapkg.Server.AutomaticFactory
/-!
# What dispatching keeps

The count of generations is stale when one is assigned, but the assignment is
compared with the generation it followed: between the two there was no other.
-/

namespace Omapkg.Server.Automatic

open Prog

/-! ## Invariants -/

/-- Every generation is recorded once, and there are three at most. -/
structure Bounded (s : DispatchState) : Prop where
  fresh : ∀ g ∈ s.assigned, g.draw < s.draws
  nodup : s.assigned.Nodup
  current : s.factoryRunId = s.assigned.getLast?
  recorded : (s.events.filter (·.isGeneration)).map (·.generationId) = s.assigned.map some
  few : s.assigned.length ≤ maxAutomaticGenerations
  pending : s.status = .pending → s.assigned = []

/-- A failed request's workflow does not live. -/
def Settled (s : DispatchState) : Prop :=
  s.status = .failed → ∀ g, s.factoryRunId = some g → lives (s.workflows g) = false

/-- No workflow was replaced while it lived. -/
def Spared (s : DispatchState) : Prop := ∀ workflow ∈ s.replaced, lives workflow = false

/-- The invariant; `P` says whether workflows are looked at. -/
structure Ok (P : Prop) (s : DispatchState) : Prop extends Bounded s where
  settled : P → Settled s
  spared : P → Spared s

/-- Steps after which a failed request's workflow does not live. -/
def Settles (P : Prop) (_ s' : DispatchState) : Prop := P → Settled s'

/-- What the `n`-th call may find changed: no other assigns an id it drew. -/
structure Grows (n : Nat) (s s' : DispatchState) : Prop where
  assigned : s.assigned <+: s'.assigned
  own : ∀ g ∈ s'.assigned, g.drawer = n → g ∈ s.assigned
  draws : s.draws ≤ s'.draws

/-- What a step of the `n`-th call changes. -/
structure Moves (n : Nat) (s s' : DispatchState) : Prop where
  assigned : s.assigned <+: s'.assigned
  others : ∀ g ∈ s'.assigned, g.drawer ≠ n → g ∈ s.assigned
  draws : s.draws ≤ s'.draws

instance (n : Nat) : Std.Refl (Grows n) := ⟨fun _ => ⟨List.prefix_refl _, fun _ h _ => h, Nat.le_refl _⟩⟩

instance (n : Nat) : Std.Refl (Moves n) := ⟨fun _ => ⟨List.prefix_refl _, fun _ h _ => h, Nat.le_refl _⟩⟩

theorem Grows.trans {n : Nat} {s s' s'' : DispatchState} (h : Grows n s s') (h' : Grows n s' s'') : Grows n s s'' where
  assigned := h.assigned.trans h'.assigned
  own g hg hn := h.own g (h'.own g hg hn) hn
  draws := Nat.le_trans h.draws h'.draws

instance (n : Nat) : IsTrans DispatchState (Grows n) := ⟨fun _ _ _ => Grows.trans⟩

theorem Bounded.count {s : DispatchState} (h : Bounded s) : generationCount s = s.assigned.length := by
  have hlen := congrArg List.length h.recorded
  rwa [List.length_map, List.length_map] at hlen

/-- A request that has the generation it had was assigned none in between. -/
theorem assigned_eq {s s' : DispatchState} (h : Bounded s) (h' : Bounded s') (hpre : s.assigned <+: s'.assigned)
    (hcurrent : s'.factoryRunId = s.factoryRunId) : s'.assigned = s.assigned := by
  obtain ⟨later, hlater⟩ := hpre
  rw [h.current, h'.current, ← hlater] at hcurrent
  rcases List.eq_nil_or_concat later with rfl | ⟨init, last, rfl⟩
  · rw [← hlater, List.append_nil]
  · rw [List.concat_eq_append, ← List.append_assoc, List.getLast?_concat] at hcurrent
    have hmem : last ∈ s.assigned := List.mem_of_getLast? hcurrent.symm
    have hnodup := h'.nodup
    rw [← hlater, List.concat_eq_append] at hnodup
    exact absurd (List.mem_append_right init List.mem_cons_self) ((List.disjoint_of_nodup_append hnodup) hmem)

/-! ## Statements -/

section
variable {P : Prop} {n : Nat} {s s' : DispatchState}

/-- Only the audit log is changed, by an event that is not counted. -/
theorem Ok.note {event : AuditEvent} (h : Ok P s) (hevent : event.isGeneration = false) :
    Ok P { s with events := s.events ++ [event] } := by
  refine ⟨⟨h.fresh, h.nodup, h.current, ?_, h.few, h.pending⟩, h.settled, h.spared⟩
  show ((s.events ++ [event]).filter _).map _ = _
  rw [List.filter_append, List.filter_singleton, hevent]
  simpa using h.recorded

theorem Ok.fail (h : Ok P s) (hsettled : P → Settled { s with status := .failed }) :
    Ok P { s with status := .failed } :=
  ⟨⟨h.fresh, h.nodup, h.current, h.recorded, h.few, fun hpending => nomatch hpending⟩, hsettled, h.spared⟩

theorem Ok.create (h : Ok P s) (workflows : GenerationId → Option WorkflowStatus)
    (hsettled : P → Settled { s with workflows }) : Ok P { s with workflows } :=
  ⟨⟨h.fresh, h.nodup, h.current, h.recorded, h.few, h.pending⟩, hsettled, h.spared⟩

theorem Ok.draw (h : Ok P s) : Ok P { s with draws := s.draws + 1 } :=
  ⟨⟨fun g hg => Nat.lt_succ_of_lt (h.fresh g hg), h.nodup, h.current, h.recorded, h.few, h.pending⟩, h.settled, h.spared⟩

/-- A new generation, of which there was room for one more. -/
theorem Ok.assign (h : Ok P s) {g : GenerationId} {action : AuditAction} (hnew : g ∉ s.assigned) (hdrawn : g.draw < s.draws)
    (hroom : s.assigned.length < maxAutomaticGenerations) (haction : (AuditEvent.mk action (some g)).isGeneration = true)
    (hreplaced : P → ∀ workflow ∈ (s.factoryRunId.map s.workflows).toList, lives workflow = false) :
    Ok P { s with
      status := .generating
      factoryRunId := some g
      assigned := s.assigned ++ [g]
      replaced := s.replaced ++ (s.factoryRunId.map s.workflows).toList
      events := s.events ++ [⟨action, some g⟩] } where
  fresh g' hg' := by
    rcases List.mem_append.mp hg' with hg' | hg'
    · exact h.fresh g' hg'
    · rwa [List.mem_singleton.mp hg']
  nodup := by
    rw [List.nodup_append]
    refine ⟨h.nodup, List.nodup_singleton g, ?_⟩
    rintro a ha b hb rfl
    exact hnew (List.mem_singleton.mp hb ▸ ha)
  current := (List.getLast?_concat).symm
  recorded := by
    show ((s.events ++ [_]).filter _).map _ = (s.assigned ++ [g]).map some
    rw [List.filter_append, List.filter_singleton, haction, List.map_append, h.recorded, List.map_append]
    rfl
  few := by
    show (s.assigned ++ [g]).length ≤ _
    rw [List.length_append, List.length_singleton]
    exact hroom
  pending hpending := nomatch hpending
  settled _ hfailed := nomatch hfailed
  spared hp workflow hworkflow := by
    rcases List.mem_append.mp hworkflow with hold | hold
    · exact h.spared hp workflow hold
    · exact hreplaced hp workflow hold

theorem moves_of_eq (hassigned : s'.assigned = s.assigned) (hdraws : s.draws ≤ s'.draws) : Moves n s s' :=
  ⟨hassigned ▸ List.prefix_refl _, fun _ hg _ => hassigned ▸ hg, hdraws⟩

/-- What the two statements of an assignment do. -/
theorem assign_cases {row : RequestRow} {action : AuditAction} {g : GenerationId} {ns : List Nat}
    (h : Sql.runAll [assignRun row g, recordAssigned action g] s 0 = .ok (s', ns)) :
    (s' = s ∧ ns.head? ≠ some 1) ∨
      (ns.head? = some 1 ∧ s.status = row.status ∧ (row.status = .failed → s.factoryRunId = row.factoryRunId) ∧
        s' = { s with
          status := .generating
          factoryRunId := some g
          assigned := s.assigned ++ [g]
          replaced := s.replaced ++ (s.factoryRunId.map s.workflows).toList
          events := s.events ++ [⟨action, some g⟩] }) := by
  obtain ⟨s₁, n₁, ns₁, hassign, hrest, rfl⟩ := Sql.runAll_cons_ok.mp h
  obtain ⟨s₂, n₂, ns₂, hrecord, hnil, rfl⟩ := Sql.runAll_cons_ok.mp hrest
  obtain ⟨rfl, rfl⟩ := Sql.runAll_nil_ok.mp hnil
  unfold assignRun at hassign
  split at hassign
  · next hrow =>
    split at hassign
    · cases hassign
    · cases hassign
      cases hrecord
      exact .inr ⟨rfl, hrow.2.1, hrow.2.2, rfl⟩
  · cases hassign
    cases hrecord
    exact .inl ⟨rfl, by simp⟩

end

/-! ## Calls -/

/-- What a call keeps: the invariant, by its own moves among those of others. -/
abbrev Dispatches {α : Type} (P : Prop) (n : Nat) (p : Prog DispatchState String α) (s : DispatchState) : Prop :=
  Keeps (Ok P) (Settles P) (Moves n) (Grows n) (fun _ _ => True) p s

section
variable {P : Prop} {n : Nat}

theorem dispatches_pure {α : Type} (a : α) (s : DispatchState) : Dispatches P n (pure a) s := fun _ _ _ => trivial

theorem dispatches_bind {α β : Type} {p : Prog DispatchState String β} {f : β → Prog DispatchState String α}
    {s : DispatchState} (hi : Ok P s) (hp : Dispatches P n p s) (hf : ∀ b s, Ok P s → Dispatches P n (f b) s) :
    Dispatches P n (p >>= f) s := keeps_bind hi hp fun b s hi _ => hf b s hi

/-- What the audit log had room for, it had room for when it was counted. -/
theorem automaticGenerationAvailable_keeps (s : DispatchState) :
    Keeps (Ok P) (Settles P) (Moves n) (Grows n)
      (fun available s' => available = true →
        ∃ s₁, Ok P s₁ ∧ Grows n s s₁ ∧ s₁.assigned.length < maxAutomaticGenerations ∧ Grows n s₁ s')
      automaticGenerationAvailable s := by
  unfold automaticGenerationAvailable
  refine keeps_read_bind fun s₁ hi hs₁ => ?_
  split
  · next hroom =>
    intro s' _ hs' _
    rw [hi.count] at hroom
    exact ⟨s₁, hi, hs₁, hroom, hs'⟩
  · refine Sql.keeps_run_bind fun s₂ s₃ ns hi₂ _ hrun _ => ?_
    obtain ⟨s₄, n₁, ns₁, hinsert, hnil, rfl⟩ := Sql.runAll_cons_ok.mp hrun
    obtain ⟨rfl, rfl⟩ := Sql.runAll_nil_ok.mp hnil
    unfold insertExhausted at hinsert
    split at hinsert
    · cases hinsert
      exact ⟨hi₂, refl_of (Moves n) _, fun s' _ _ hfalse => nomatch hfalse⟩
    · cases hinsert
      exact ⟨hi₂.note rfl, moves_of_eq rfl (Nat.le_refl _), fun s' _ _ hfalse => nomatch hfalse⟩

/-- The row as it was read of a state the call has seen. -/
def Seen (P : Prop) (n : Nat) (row : RequestRow) (s : DispatchState) : Prop :=
  ∃ s₀, Ok P s₀ ∧ row = s₀.row ∧ Grows n s₀ s

theorem assignGeneration_keeps {row : RequestRow} {s : DispatchState} (hi : Ok P s) (hseen : Seen P n row s)
    (hstatus : row.status = .pending ∨ row.status = .failed) : Dispatches P n (assignGeneration n row) s := by
  obtain ⟨s₀, hi₀, rfl, hs₀⟩ := hseen
  unfold assignGeneration
  refine keeps_bind hi (automaticGenerationAvailable_keeps s) fun available s₁ hi₁ havailable => ?_
  split
  · next htrue =>
    obtain ⟨sc, hic, hsc, hroom, hsc'⟩ := havailable htrue
    refine keeps_transact_bind fun s₂ hi₂ hs₂ _ => ⟨hi₂.draw, moves_of_eq rfl (Nat.le_succ _), ?_⟩
    intro g hg
    cases hg
    refine Sql.keeps_run_bind fun s₃ s₄ ns hi₃ hs₃ hrun _ => ?_
    rcases assign_cases hrun with ⟨rfl, -⟩ | ⟨-, hsame, hcurrent, rfl⟩
    · exact ⟨hi₃, refl_of (Moves n) _, dispatches_pure _ _⟩
    · have hnew : (⟨n, s₂.draws⟩ : GenerationId) ∉ s₃.assigned := fun hmem =>
        Nat.lt_irrefl _ (hi₂.fresh _ (hs₃.own _ hmem rfl))
      have hlength : s₃.assigned.length < maxAutomaticGenerations := by
        rcases hstatus with hpending | hfailed
        · -- a pending request has no generation yet
          rw [hi₃.pending (hsame.trans hpending)]
          decide
        · -- a failed one has the generation it had when its row was read, before the count
          have hsc₃ : sc.assigned <+: s₃.assigned :=
            (hsc'.assigned.trans hs₂.assigned).trans hs₃.assigned
          have heq : s₃.assigned = s₀.assigned :=
            assigned_eq hi₀.toBounded hi₃.toBounded ((hs₀.assigned.trans hsc.assigned).trans hsc₃) (hcurrent hfailed)
          rw [heq]
          exact Nat.lt_of_le_of_lt (hs₀.assigned.trans hsc.assigned).length_le hroom
      refine ⟨hi₃.assign hnew (Nat.lt_of_lt_of_le (Nat.lt_succ_self _) hs₃.draws) hlength ?_ ?_, ?_, dispatches_pure _ _⟩
      · unfold assignedAction
        split <;> rfl
      · -- only a failed request has a generation to replace
        intro hp workflow hworkflow
        rcases hstatus with hpending | hfailed
        · rw [hi₃.current, hi₃.pending (hsame.trans hpending)] at hworkflow
          cases hworkflow
        · rw [Option.mem_toList, Option.map_eq_some_iff] at hworkflow
          obtain ⟨g, hg, rfl⟩ := hworkflow
          exact hi₃.settled hp (hsame.trans hfailed) g hg
      · refine ⟨List.prefix_append _ _, ?_, Nat.le_refl _⟩
        intro g hg hother
        rcases List.mem_append.mp hg with hg | hg
        · exact hg
        · rw [List.mem_singleton.mp hg] at hother
          exact absurd rfl hother
  · exact dispatches_pure _ _

theorem prepareRetry_keeps {row : RequestRow} {s : DispatchState} (hi : Ok P s) (hseen : Seen P n row s) :
    Dispatches P n (prepareRetry n row) s := by
  unfold prepareRetry
  split
  · exact dispatches_pure _ _
  · split
    · next hfailed =>
      refine dispatches_bind hi (assignGeneration_keeps hi hseen (.inr hfailed)) fun assignment s₁ hi₁ => ?_
      cases assignment with
      | exhausted => exact dispatches_pure _ _
      | assigned g => exact dispatches_pure _ _
      | changed => exact keeps_read_bind fun s₂ _ _ => dispatches_pure _ _
    · exact dispatches_pure _ _

theorem prepareAutomaticFactoryRun_keeps {s : DispatchState} :
    Dispatches P n (prepareAutomaticFactoryRun n) s := by
  unfold prepareAutomaticFactoryRun
  refine keeps_read_bind fun s₁ hi₁ _ => ?_
  have hseen : Seen P n s₁.row s₁ := ⟨s₁, hi₁, rfl, refl_of (Grows n) s₁⟩
  split
  · next hpending =>
    refine dispatches_bind hi₁ (assignGeneration_keeps hi₁ hseen (.inl hpending.2)) fun assignment s₂ hi₂ => ?_
    cases assignment with
    | exhausted => exact dispatches_pure _ _
    | assigned g => exact dispatches_pure _ _
    | changed =>
      exact keeps_read_bind fun s₃ hi₃ _ => prepareRetry_keeps hi₃ ⟨s₃, hi₃, rfl, refl_of (Grows n) s₃⟩
  · exact prepareRetry_keeps hi₁ hseen

theorem insertEvent_keeps {action : AuditAction} {g : GenerationId} (haction : (AuditEvent.mk action (some g)).isGeneration = false)
    {α : Type} (f : List Nat → Prog DispatchState String α) {s : DispatchState}
    (hf : ∀ ns s, Ok P s → Dispatches P n (f ns) s) : Dispatches P n (runBatch [insertEvent action g] >>= f) s := by
  refine Sql.keeps_run_bind fun s₁ s₂ ns hi₁ _ hrun _ => ?_
  obtain ⟨s₃, n₁, ns₁, hinsert, hnil, rfl⟩ := Sql.runAll_cons_ok.mp hrun
  obtain ⟨rfl, rfl⟩ := Sql.runAll_nil_ok.mp hnil
  cases hinsert
  exact ⟨hi₁.note haction, moves_of_eq rfl (Nat.le_refl _), hf _ _ (hi₁.note haction)⟩

theorem recordAutomaticDispatchFailure_keeps (g : GenerationId) (s : DispatchState) :
    Dispatches P n (recordAutomaticDispatchFailure g) s := by
  unfold recordAutomaticDispatchFailure
  refine Sql.keeps_run_bind fun s₁ s₂ ns hi₁ _ hrun hsettles => ?_
  obtain ⟨s₃, n₁, ns₁, hfail, hrest, rfl⟩ := Sql.runAll_cons_ok.mp hrun
  obtain ⟨s₄, n₂, ns₂, hinsert, hnil, rfl⟩ := Sql.runAll_cons_ok.mp hrest
  obtain ⟨rfl, rfl⟩ := Sql.runAll_nil_ok.mp hnil
  cases hinsert
  unfold failRun at hfail
  split at hfail
  · cases hfail
    exact ⟨(hi₁.fail fun hp => hsettles hp).note rfl, moves_of_eq rfl (Nat.le_refl _), dispatches_pure _ _⟩
  · cases hfail
    exact ⟨hi₁.note rfl, moves_of_eq rfl (Nat.le_refl _), dispatches_pure _ _⟩

theorem createWorkflow_keeps {creation : Creation} {g : GenerationId} {α : Type} {f : Unit → Prog DispatchState String α}
    {s : DispatchState} (hf : ∀ s, Ok P s → Dispatches P n (f ()) s) :
    Dispatches P n (createWorkflow creation g >>= f) s := by
  refine keeps_transact_bind fun s₁ hi₁ _ hsettles => ?_
  cases hworkflow : s₁.workflows g with
  | some status =>
    simp only [hworkflow] at hsettles ⊢
    exact ⟨hi₁, refl_of (Moves n) _, fun _ hok => nomatch hok⟩
  | none =>
    simp only [hworkflow] at hsettles ⊢
    cases creation with
    | refused => exact ⟨hi₁, refl_of (Moves n) _, fun _ hok => nomatch hok⟩
    | lost => exact ⟨hi₁.create _ hsettles, moves_of_eq rfl (Nat.le_refl _), fun _ hok => nomatch hok⟩
    | answered => exact ⟨hi₁.create _ hsettles, moves_of_eq rfl (Nat.le_refl _), fun _ _ => hf _ (hi₁.create _ hsettles)⟩

theorem workflowStatus_keeps (readable : Bool) (g : GenerationId) (s : DispatchState) :
    Dispatches P n (workflowStatus readable g) s := by
  unfold workflowStatus
  refine keeps_read_bind fun s₁ _ _ => ?_
  split
  · exact dispatches_pure _ _
  · trivial

theorem dispatchRun_keeps (answers : Answers) (g : GenerationId) {s : DispatchState} (hi : Ok P s) :
    Dispatches P n (dispatchRun answers g) s := by
  unfold dispatchRun
  split
  · exact dispatches_bind hi (recordAutomaticDispatchFailure_keeps g s) fun _ _ _ => trivial
  · have hcreate : Dispatches P n (createAndRecord answers g) s :=
      createWorkflow_keeps fun s _ => insertEvent_keeps rfl _ fun _ _ _ => dispatches_pure _ _
    refine keeps_bind hi (keeps_attempt hcreate) fun created s₁ hi₁ _ => ?_
    cases created with
    | ok _ => exact dispatches_pure _ _
    | error e =>
      have hconfirm : Dispatches P n (confirmWorkflow answers g) s₁ := by
        refine dispatches_bind hi₁ (workflowStatus_keeps _ _ _) fun status s₂ hi₂ => ?_
        split
        · exact insertEvent_keeps rfl _ fun _ _ _ => dispatches_pure _ _
        · exact dispatches_pure _ _
      refine keeps_bind hi₁ (keeps_attempt hconfirm) fun confirmed s₂ hi₂ _ => ?_
      split
      · exact dispatches_pure _ _
      · exact dispatches_bind hi₂ (recordAutomaticDispatchFailure_keeps g s₂) fun _ _ _ => trivial

theorem dispatchUpstreamFactory_keeps (answers : Answers) {s : DispatchState} (hi : Ok P s) :
    Dispatches P n (dispatchUpstreamFactory answers n) s := by
  unfold dispatchUpstreamFactory
  refine dispatches_bind hi prepareAutomaticFactoryRun_keeps fun run s₁ hi₁ => ?_
  cases run with
  | none => exact dispatches_pure _ _
  | some g => exact dispatchRun_keeps answers g hi₁

end

/-! ## Runs of calls -/

/-- A call of `dispatchUpstreamFactory`. -/
def Dispatching (n : Nat) (p : Prog DispatchState String (Option GenerationId)) : Prop :=
  ∃ answers, p = dispatchUpstreamFactory answers n

/-- What happens beside the calls: the runs go on, end and fail, and others act on the
request, but never make it pending again. -/
structure Happens (s s' : DispatchState) : Prop where
  requestedBy : s'.requestedBy = s.requestedBy
  factoryRunId : s'.factoryRunId = s.factoryRunId
  pending : s'.status = .pending → s.status = .pending
  events : s'.events.filter (·.isGeneration) = s.events.filter (·.isGeneration)
  draws : s'.draws = s.draws
  assigned : s'.assigned = s.assigned
  replaced : s'.replaced = s.replaced

/-- What happens, if it leaves no failed request with a workflow that lives. -/
def HappensSettled (P : Prop) (s s' : DispatchState) : Prop := Happens s s' ∧ Settles P s s'

theorem Happens.keeps {P : Prop} {s s' : DispatchState} (h : Happens s s') (hsettles : Settles P s s') (hi : Ok P s) :
    Ok P s' where
  fresh := by
    rw [h.assigned, h.draws]
    exact hi.fresh
  nodup := h.assigned ▸ hi.nodup
  current := by rw [h.factoryRunId, h.assigned, hi.current]
  recorded := by rw [h.events, h.assigned, hi.recorded]
  few := h.assigned ▸ hi.few
  pending hpending := h.assigned ▸ hi.pending (h.pending hpending)
  settled := hsettles
  spared hp := by
    unfold Spared
    rw [h.replaced]
    exact hi.spared hp

theorem dispatching_agree (P : Prop) :
    Pool.Agree Dispatching (HappensSettled P) (Ok P) (Settles P) Moves Grows (fun _ _ => True) where
  refl _ := inferInstance
  trans _ := inferInstance
  start := by
    rintro n p s ⟨answers, rfl⟩ hi
    exact dispatchUpstreamFactory_keeps answers hi
  others := by
    intro m n s s' hmn _ _ h
    exact ⟨h.assigned, fun g hg hn => h.others g hg fun hm => hmn (hm.symm.trans hn), h.draws⟩
  outside := by
    rintro s s' ⟨h, hsettles⟩ hi
    refine ⟨h.keeps hsettles hi, fun n => ⟨?_, ?_, ?_⟩⟩
    · exact h.assigned ▸ List.prefix_refl _
    · exact fun g hg _ => h.assigned ▸ hg
    · exact Nat.le_of_eq h.draws.symm

/-- A pending request, which was given no generation. -/
structure Starts (s : DispatchState) : Prop where
  requestedBy : s.requestedBy = upstreamActor
  status : s.status = .pending
  factoryRunId : s.factoryRunId = none
  events : s.events.filter (·.isGeneration) = []
  assigned : s.assigned = []
  replaced : s.replaced = []

theorem Starts.ok {P : Prop} {s : DispatchState} (h : Starts s) : Ok P s where
  fresh := by simp [h.assigned]
  nodup := by simp [h.assigned]
  current := by simp [h.assigned, h.factoryRunId]
  recorded := by simp [h.assigned, h.events]
  few := by simp [h.assigned]
  pending _ := h.assigned
  settled _ hfailed := by
    rw [h.status] at hfailed
    cases hfailed
  spared _ workflow hworkflow := by
    rw [h.replaced] at hworkflow
    cases hworkflow

/-- The events of a generation. -/
def eventsOf (s : DispatchState) (g : GenerationId) : List AuditEvent :=
  s.events.filter fun event => event.isGeneration && event.generationId = some g

theorem Bounded.recorded_once {s : DispatchState} (h : Bounded s) {g : GenerationId} (hg : g ∈ s.assigned) :
    (eventsOf s g).length = 1 := by
  have hcount : ((s.events.filter (·.isGeneration)).map (·.generationId)).count (some g) = 1 := by
    rw [h.recorded]
    exact List.count_eq_one_of_mem (h.nodup.map fun _ _ => Option.some.inj) (List.mem_map_of_mem hg)
  rw [List.count, List.countP_map, List.countP_filter, List.countP_eq_length_filter] at hcount
  rw [← hcount, eventsOf]
  congr 1
  refine List.filter_congr fun event _ => ?_
  rw [Bool.and_comm, Function.comp_apply, beq_eq_decide]

/-- What is promised of the generations of a request. -/
structure Promised (s : DispatchState) : Prop where
  few : s.assigned.length ≤ maxAutomaticGenerations
  distinct : s.assigned.Nodup
  recorded : ∀ g ∈ s.assigned, (eventsOf s g).length = 1
  current : s.factoryRunId = s.assigned.getLast?

theorem Bounded.promised {s : DispatchState} (h : Bounded s) : Promised s :=
  ⟨h.few, h.nodup, fun _ hg => h.recorded_once hg, h.current⟩

/-- In every run there are three generations at most, each of them is recorded once
and the last is the current one. -/
theorem generations_promised (s : DispatchState) (hstart : Starts s)
    (pool : Pool DispatchState String (Option GenerationId)) (hrun : Pool.Steps Dispatching Happens ⟨s, []⟩ pool) :
    Promised pool.state := by
  have hgood : (⟨s, []⟩ : Pool DispatchState String (Option GenerationId)).Good (Ok False) (Settles False) Moves Grows
      (fun _ _ => True) := Pool.good_start hstart.ok
  have hall : Pool.StepsIn Dispatching (HappensSettled False) (Settles False) ⟨s, []⟩ pool := by
    refine Relation.ReflTransGen.mono ?_ _ _ hrun
    refine fun a b hnext => ⟨?_, False.elim⟩
    cases hnext with
    | start s tasks p hp => exact .start s tasks p hp
    | act s tasks n write next hn => exact .act s tasks n write next hn
    | move s s' tasks hmove => exact .move s s' tasks ⟨hmove, False.elim⟩
  exact ((hgood.stepsIn (dispatching_agree False) hall).1).promised

/-! ## A workflow that is created late -/

def sampleStart : DispatchState :=
  ⟨upstreamActor, .pending, none, false, [], fun _ => none, 0, [], []⟩

theorem sampleStart_starts : Starts sampleStart := ⟨rfl, rfl, rfl, rfl, rfl, rfl⟩

def dispatchWith (creation : Creation) (n : Nat) : Prog DispatchState String (Option GenerationId) :=
  dispatchUpstreamFactory ⟨true, creation, true⟩ n

/-- The pool after one more call. -/
def calling (creation : Creation) (pool : Pool DispatchState String (Option GenerationId)) :
    Pool DispatchState String (Option GenerationId) := pool.starting (dispatchWith creation pool.tasks.length)

theorem calling_next (creation : Creation) (pool : Pool DispatchState String (Option GenerationId)) :
    Pool.Next Dispatching Happens pool (calling creation pool) := Pool.starting_next pool ⟨_, rfl⟩

/-- Three calls, of which the first is refused a workflow. -/
def sampleCalls : Pool DispatchState String (Option GenerationId) :=
  calling .answered (calling .answered (calling .refused ⟨sampleStart, []⟩))

instance (s : DispatchState) : Decidable (Settled s) :=
  decidable_of_iff (s.status ≠ .failed ∨ s.factoryRunId.all (fun g => !lives (s.workflows g)) = true) <| by
    unfold Settled
    rw [← imp_iff_not_or]
    cases s.factoryRunId <;> simp

/-- The calls have started; nothing has happened. -/
theorem sampleCalls_next {R : Pool DispatchState String (Option GenerationId) → Pool DispatchState String (Option GenerationId) → Prop}
    (hR : ∀ pool pool', Pool.Next Dispatching Happens pool pool' → pool'.state = sampleStart → R pool pool') :
    Relation.ReflTransGen R ⟨sampleStart, []⟩ sampleCalls :=
  ((Relation.ReflTransGen.refl.tail (hR _ _ (calling_next .refused _) rfl)).tail
    (hR _ _ (calling_next .answered _) rfl)).tail (hR _ _ (calling_next .answered _) rfl)

/-- The third call replaces a workflow that lives; what is promised holds. -/
theorem generations_promised_replaced : Promised (sampleCalls.turns [0, 0, 0, 0, 0, 0, 1, 1, 1, 0, 2, 2, 2, 2]).state :=
  generations_promised sampleStart sampleStart_starts _
    ((sampleCalls_next fun _ _ hnext _ => hnext).trans (Pool.turns_steps _ _))

/-- In every run whose steps leave no failed request with a workflow that lives, all
is as promised, and no workflow is replaced while it lives. -/
theorem generations_spared (s : DispatchState) (hstart : Starts s)
    (pool : Pool DispatchState String (Option GenerationId))
    (hrun : Pool.StepsIn Dispatching Happens (fun _ s' => Settled s') ⟨s, []⟩ pool) :
    Promised pool.state ∧ Spared pool.state := by
  have hgood : (⟨s, []⟩ : Pool DispatchState String (Option GenerationId)).Good (Ok True) (Settles True) Moves Grows
      (fun _ _ => True) := Pool.good_start hstart.ok
  have hall : Pool.StepsIn Dispatching (HappensSettled True) (Settles True) ⟨s, []⟩ pool := by
    refine Relation.ReflTransGen.mono ?_ _ _ hrun
    refine fun a b hnext => ⟨?_, fun _ => hnext.2⟩
    obtain ⟨hnext, hsettled⟩ := hnext
    cases hnext with
    | start s tasks p hp => exact .start s tasks p hp
    | act s tasks n write next hn => exact .act s tasks n write next hn
    | move s s' tasks hmove => exact .move s s' tasks ⟨hmove, fun _ => hsettled⟩
  have hok := (hgood.stepsIn (dispatching_agree True) hall).1
  exact ⟨hok.promised, hok.spared trivial⟩

/-- The first call's failure is recorded while there is no workflow, and the last call assigns a second generation. -/
theorem generations_spared_sample :
    Promised (sampleCalls.turns [0, 0, 0, 0, 0, 0, 0, 2, 2, 2, 2]).state ∧
      Spared (sampleCalls.turns [0, 0, 0, 0, 0, 0, 0, 2, 2, 2, 2]).state := by
  refine generations_spared sampleStart sampleStart_starts _ ((sampleCalls_next fun pool pool' hnext hstate => ?_).trans ?_)
  · rw [hstate]
    exact ⟨hnext, fun hfailed => nomatch hfailed⟩
  · have hsettled : ∀ k < 11, Settled (sampleCalls.turns ([0, 0, 0, 0, 0, 0, 0, 2, 2, 2, 2].take (k + 1))).state := by
      decide +kernel
    exact Pool.turns_stepsIn (C := fun _ s' => Settled s') [0, 0, 0, 0, 0, 0, 0, 2, 2, 2, 2] sampleCalls hsettled

/-- The second call creates the workflow after the first one found none and before
it recorded its failure; the third call replaces the workflow while it lives. -/
theorem generations_not_spared :
    ¬∀ (s : DispatchState) (pool : Pool DispatchState String (Option GenerationId)), Starts s →
      Pool.Steps Dispatching Happens ⟨s, []⟩ pool → Promised pool.state ∧ Spared pool.state := by
  intro h
  have hspared := (h sampleStart (sampleCalls.turns [0, 0, 0, 0, 0, 0, 1, 1, 1, 0, 2, 2, 2, 2]) sampleStart_starts
    ((sampleCalls_next fun _ _ hnext _ => hnext).trans (Pool.turns_steps _ _))).2
  have hreplaced : (sampleCalls.turns [0, 0, 0, 0, 0, 0, 1, 1, 1, 0, 2, 2, 2, 2]).state.replaced = [some .queued] := by
    decide +kernel
  have hdead := hspared (some .queued) (hreplaced ▸ List.mem_singleton_self _)
  cases hdead

end Omapkg.Server.Automatic
