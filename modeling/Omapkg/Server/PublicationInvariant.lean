import Omapkg.Server.Publication
/-!
# What publication jobs keep

A completed job has a release and stays completed, whatever else runs. A job
whose instance ended with an error is queued or failed only as long as nobody
records a success for a run that has already recorded its failure
(`Orderly`): the dispatcher writes `dispatched` after the call that started
the run, and the run may be over by then.
-/

namespace Omapkg.Server.Publication

open Prog

/-! ## Rows after a write -/

section
variable {s : PublicationState} {b c : String}

theorem find_updateJob (f : PublicationJob → PublicationJob) (hf : ∀ j, (f j).buildId = j.buildId)
    (jobs : List PublicationJob) :
    (updateJob f b jobs).find? (fun j => j.buildId = c) =
      (jobs.find? fun j => j.buildId = c).map fun j => if c = b then f j else j := by
  induction jobs with
  | nil => rfl
  | cons j jobs ih =>
    have hid : (if j.buildId = b then f j else j).buildId = j.buildId := by
      split_ifs
      · exact hf j
      · rfl
    unfold updateJob at ih ⊢
    rw [List.map_cons, List.find?_cons, List.find?_cons, hid]
    by_cases hj : j.buildId = c
    · simp [hj]
    · simp only [hj, decide_false]
      exact ih

theorem find_append_job (jobs : List PublicationJob) (j : PublicationJob) (hj : j.buildId = b)
    (hnone : (jobs.find? fun x => x.buildId = b) = none) :
    (jobs ++ [j]).find? (fun x => x.buildId = c) = if c = b then some j else jobs.find? fun x => x.buildId = c := by
  rw [List.find?_append]
  by_cases hc : c = b
  · subst hc
    simp [hnone, hj]
  · have hne : ¬j.buildId = c := fun h => hc (h.symm.trans hj)
    simp [hc, hne]

theorem remark_buildId (status : PublicationStatus) (next : Int) (error : Option Utf.CodeUnits) (now : Int)
    (j : PublicationJob) : (remark status next error now j).buildId = j.buildId := by
  unfold remark
  split_ifs <;> rfl

theorem status_append {j : PublicationJob} (hj : j.buildId = b) (hnone : s.job b = none) :
    ({ s with jobs := s.jobs ++ [j] } : PublicationState).status c = if c = b then some j.status else s.status c := by
  have hfind : (s.jobs.find? fun j => j.buildId = b) = none := hnone
  unfold PublicationState.status PublicationState.job
  rw [find_append_job _ _ hj hfind]
  by_cases hc : c = b
  · simp [hc]
  · simp [hc]

/-- A mark changes the status of its own job, unless that is completed. -/
theorem status_markJob (status : PublicationStatus) (error : Option String) :
    (markJob b status error s).status c =
      if c = b then some (if s.status b = some .completed then .completed else status) else s.status c := by
  unfold markJob
  cases hj : s.job b with
  | none =>
    have hnew : s.status b = none := by rw [PublicationState.status, hj, Option.map_none]
    simp only [Option.isSome_none, Bool.false_eq_true, if_false]
    rw [status_append (by rfl) hj, hnew]
    rfl
  | some j =>
    have hfind : (s.jobs.find? fun j => j.buildId = b) = some j := hj
    unfold PublicationState.status PublicationState.job
    simp only [Option.isSome_some, if_true]
    rw [find_updateJob _ (remark_buildId _ _ _ _)]
    by_cases hc : c = b
    · subst hc
      simp only [hfind, Option.map_some, if_true, Option.some.injEq, remark]
      by_cases hcompleted : j.status = .completed
      · by_cases hstatus : status = .completed <;> simp [hcompleted, hstatus]
      · simp [hcompleted]
    · simp [hc]

theorem status_queueJob : (queueJob b s).status c =
    if c = b then some ((s.status b).getD .queued) else s.status c := by
  unfold queueJob
  cases hj : s.job b with
  | none =>
    have hnew : s.status b = none := by rw [PublicationState.status, hj, Option.map_none]
    simp only [Option.isSome_none, Bool.false_eq_true, if_false]
    rw [status_append (by rfl) hj, hnew]
    rfl
  | some j =>
    unfold PublicationState.status PublicationState.job
    have hfind : (s.jobs.find? fun j => j.buildId = b) = some j := hj
    simp only [Option.isSome_some, if_true]
    by_cases hc : c = b
    · simp [hc, hfind]
    · simp [hc]

theorem markJob_releases (status : PublicationStatus) (error : Option String) :
    (markJob b status error s).releases = s.releases := by
  unfold markJob
  simp only
  split_ifs <;> rfl

theorem markJob_instances (status : PublicationStatus) (error : Option String) :
    (markJob b status error s).instances = s.instances := by
  unfold markJob
  simp only
  split_ifs <;> rfl

theorem queueJob_releases : (queueJob b s).releases = s.releases := by
  unfold queueJob
  split_ifs <;> rfl

theorem queueJob_instances : (queueJob b s).instances = s.instances := by
  unfold queueJob
  split_ifs <;> rfl

theorem stage_setInstance (i : Instance) : (setInstance b i s).stage c = if c = b then some i.stage else s.stage c := by
  unfold PublicationState.stage setInstance
  by_cases hc : c = b
  · simp [hc]
  · simp [hc]

end

/-! ## The invariant -/

/-- A run that has recorded its failure. -/
def Over (stage : Option Stage) : Prop := stage = some .failing ∨ stage = some .errored

structure PublicationOk (s : PublicationState) : Prop where
  listed : ∀ b, (s.stage b).isSome → (s.status b).isSome
  released : ∀ b, s.status b = some .completed → (s.releases b).isSome
  undispatched : ∀ b, Over (s.stage b) → s.status b ≠ some .dispatched
  uncompleted : ∀ b, s.stage b = some .errored → s.status b ≠ some .completed

/-- What no step takes back. -/
structure Grows (s s' : PublicationState) : Prop where
  releases : ∀ b, (s.releases b).isSome → (s'.releases b).isSome
  listed : ∀ b, (s.status b).isSome → (s'.status b).isSome
  completed : ∀ b, s.status b = some .completed → s'.status b = some .completed

instance : Std.Refl Grows := ⟨fun _ => ⟨fun _ h => h, fun _ h => h, fun _ h => h⟩⟩

instance : IsTrans PublicationState Grows :=
  ⟨fun _ _ _ h h' => ⟨fun b hb => h'.releases b (h.releases b hb), fun b hb => h'.listed b (h.listed b hb),
    fun b hb => h'.completed b (h.completed b hb)⟩⟩

/-- No success is recorded for a run that has recorded its failure, and no run
ends with an error once its job is completed. -/
def Orderly (s s' : PublicationState) : Prop := ∀ b,
  (Over (s.stage b) → (s'.status b = some .dispatched ∨ s'.status b = some .completed) → s.status b = s'.status b) ∧
    (s'.stage b = some .errored → s.stage b ≠ some .errored → s.status b ≠ some .completed)

abbrev Publishes {α : Type} (p : Prog PublicationState String α) (s : PublicationState) : Prop :=
  Keeps PublicationOk Orderly Grows Grows (fun _ _ => True) p s

section
variable {s s' : PublicationState} {b : String}

theorem grows_of_eq (hstatus : ∀ b, s'.status b = s.status b)
    (hreleases : ∀ b, (s.releases b).isSome → (s'.releases b).isSome) : Grows s s' :=
  ⟨hreleases, fun b h => by rwa [hstatus], fun b h => by rwa [hstatus]⟩

theorem markJob_ok (hi : PublicationOk s) {status : PublicationStatus} (error : Option String)
    (hc : Orderly s (markJob b status error s)) (hreleased : status = .completed → (s.releases b).isSome) :
    PublicationOk (markJob b status error s) ∧ Grows s (markJob b status error s) := by
  have hstage : ∀ c, (markJob b status error s).stage c = s.stage c := by
    intro c
    unfold PublicationState.stage
    rw [markJob_instances]
  constructor
  · constructor
    · intro c hsome
      rw [status_markJob]
      by_cases hcb : c = b
      · rw [if_pos hcb]
        rfl
      · rw [if_neg hcb]
        exact hi.listed c (hstage c ▸ hsome)
    · intro c hcompleted
      rw [markJob_releases]
      rw [status_markJob] at hcompleted
      split_ifs at hcompleted with hcb hold
      · exact hi.released c (hcb ▸ hold)
      · rw [hcb]
        exact hreleased (by simpa using hcompleted)
      · exact hi.released c hcompleted
    · intro c hover hdispatched
      rw [hstage] at hover
      have hsame := (hc c).1 hover (.inl hdispatched)
      exact hi.undispatched c hover (hsame.trans hdispatched)
    · intro c herrored hcompleted
      rw [hstage] at herrored
      have hsame := (hc c).1 (.inr herrored) (.inr hcompleted)
      exact hi.uncompleted c herrored (hsame.trans hcompleted)
  · refine ⟨fun c h => by rwa [markJob_releases], fun c h => ?_, fun c h => ?_⟩
    · rw [status_markJob]
      by_cases hcb : c = b
      · rw [if_pos hcb]
        rfl
      · rwa [if_neg hcb]
    · rw [status_markJob]
      split_ifs with hcb hold
      · rfl
      · exact absurd (hcb ▸ h) hold
      · exact h

theorem queueJob_ok (hi : PublicationOk s) : PublicationOk (queueJob b s) ∧ Grows s (queueJob b s) := by
  have hstage : ∀ c, (queueJob b s).stage c = s.stage c := by
    intro c
    unfold PublicationState.stage
    rw [queueJob_instances]
  -- the status of a job that was there stays, and a new one is queued
  have hstatus : ∀ c t, t ≠ .queued → ((queueJob b s).status c = some t ↔ s.status c = some t) := by
    intro c t ht
    rw [status_queueJob]
    split_ifs with hcb
    · subst hcb
      cases hs : s.status c with
      | none => simpa using fun h => ht h.symm
      | some t' => simp
    · rfl
  constructor
  · refine ⟨fun c h => ?_, fun c h => ?_, fun c h h' => ?_, fun c h h' => ?_⟩
    · rw [status_queueJob]
      split_ifs
      · rfl
      · exact hi.listed c (hstage c ▸ h)
    · rw [queueJob_releases]
      exact hi.released c ((hstatus c _ (by decide)).mp h)
    · exact hi.undispatched c (hstage c ▸ h) ((hstatus c _ (by decide)).mp h')
    · exact hi.uncompleted c (hstage c ▸ h) ((hstatus c _ (by decide)).mp h')
  · refine ⟨fun c h => by rwa [queueJob_releases], fun c h => ?_, fun c h => (hstatus c _ (by decide)).mpr h⟩
    rw [status_queueJob]
    split_ifs
    · rfl
    · exact h

/-- An instance may change where its job is listed and agrees with the new stage. -/
theorem setInstance_ok (hi : PublicationOk s) {i : Instance} (hlisted : (s.status b).isSome)
    (hover : Over (some i.stage) → s.status b ≠ some .dispatched)
    (herrored : i.stage = .errored → s.status b ≠ some .completed) :
    PublicationOk (setInstance b i s) ∧ Grows s (setInstance b i s) := by
  constructor
  · refine ⟨fun c h => ?_, hi.released, fun c h h' => ?_, fun c h h' => ?_⟩
    · rw [stage_setInstance] at h
      split_ifs at h with hcb
      · rw [hcb]
        exact hlisted
      · exact hi.listed c h
    · rw [stage_setInstance] at h
      split_ifs at h with hcb
      · exact hover h (hcb ▸ h')
      · exact hi.undispatched c h h'
    · rw [stage_setInstance] at h
      split_ifs at h with hcb
      · exact herrored (by simpa using h) (hcb ▸ h')
      · exact hi.uncompleted c h h'
  · exact grows_of_eq (fun _ => rfl) fun _ h => h

theorem stage_of_instance {i : Instance} (h : s.instances b = some i) : s.stage b = some i.stage := by
  rw [PublicationState.stage, h]
  rfl

theorem release_ok (hi : PublicationOk s) (release : String) :
    PublicationOk { s with releases := Function.update s.releases b (some release) } ∧
      Grows s { s with releases := Function.update s.releases b (some release) } := by
  have hreleases : ∀ c, (s.releases c).isSome → (Function.update s.releases b (some release) c).isSome := by
    intro c h
    by_cases hcb : c = b
    · simp [hcb]
    · rwa [Function.update_of_ne hcb]
  exact ⟨⟨hi.listed, fun c h => hreleases c (hi.released c h), hi.undispatched, hi.uncompleted⟩,
    grows_of_eq (fun _ => rfl) hreleases⟩

/-! ## Calls -/

variable {α : Type}

theorem publishes_pure (a : α) : Publishes (pure a : Prog PublicationState String α) s := fun _ _ _ => trivial

theorem publishes_fail (e : String) : Publishes (fail e : Prog PublicationState String α) s := trivial

/-- A step that changes the state by `f` where that keeps the invariant. -/
theorem publishes_transact_bind {β : Type} {f : PublicationState → Except String β × PublicationState}
    {g : β → Prog PublicationState String α}
    (h : ∀ s', PublicationOk s' → Grows s s' → Orderly s' (f s').2 →
      PublicationOk (f s').2 ∧ Grows s' (f s').2 ∧ ∀ b, (f s').1 = .ok b → Publishes (g b) (f s').2) :
    Publishes (transact f >>= g) s := keeps_transact_bind h

theorem publishes_bind {β : Type} (hi : PublicationOk s) {p : Prog PublicationState String β}
    {f : β → Prog PublicationState String α} (hp : Publishes p s)
    (hf : ∀ b s', PublicationOk s' → Grows s s' → Publishes (f b) s') : Publishes (p >>= f) s := by
  have hframe := Keeps.frame (P := Grows s) (fun _ _ h h' => trans_of Grows h h') (fun _ _ h h' => trans_of Grows h h')
    hp (refl_of Grows s)
  exact keeps_bind hi hframe fun b s' hi' h => hf b s' hi' h.2

theorem publishes_attempt {p : Prog PublicationState String α} (h : Publishes p s) :
    Publishes (p.attempt : Prog PublicationState String (Except String α)) s :=
  keeps_mono (fun _ _ _ => trivial) (keeps_attempt h)

theorem publishes_read_bind {β : Type} {view : PublicationState → β} {f : β → Prog PublicationState String α}
    (h : ∀ s', PublicationOk s' → Grows s s' → Publishes (f (view s')) s') : Publishes (read view >>= f) s :=
  keeps_read_bind h

/-- A call keeps the invariant where what it does keeps it, whether or not the answer arrives. -/
theorem call_publishes {act : PublicationState → Except String α × PublicationState} (answer : Answer)
    (h : ∀ s', PublicationOk s' → Grows s s' → Orderly s' (act s').2 →
      PublicationOk (act s').2 ∧ Grows s' (act s').2) : Publishes (call act answer) s := by
  cases answer with
  | answered =>
    intro s' hi' hs hc
    obtain ⟨hok, hgrows⟩ := h s' hi' hs hc
    exact ⟨hok, hgrows, keeps_ofExcept fun _ _ _ _ _ => trivial⟩
  | lost message =>
    intro s' hi' hs hc
    obtain ⟨hok, hgrows⟩ := h s' hi' hs hc
    exact ⟨hok, hgrows, trivial⟩
  | refused message => trivial

theorem listed_after (h : (s.status b).isSome) {s'' : PublicationState} (hs : Grows s s'') : (s''.status b).isSome :=
  hs.listed b h

theorem createInstance_publishes (hlisted : (s.status b).isSome) (answer : Answer) :
    Publishes (call (createInstance b) answer) s := by
  apply call_publishes
  intro s' hi' hs _
  unfold createInstance
  cases s'.instances b with
  | some i => exact ⟨hi', refl_of Grows s'⟩
  | none =>
    apply setInstance_ok hi' (listed_after hlisted hs)
    · rintro (h | h) <;> cases h
    · intro h
      cases h

theorem restartInstance_publishes (hlisted : (s.status b).isSome) (answer : Answer) :
    Publishes (call (restartInstance b) answer) s := by
  apply call_publishes
  intro s' hi' hs _
  unfold restartInstance
  cases s'.instances b with
  | none => exact ⟨hi', refl_of Grows s'⟩
  | some i =>
    apply setInstance_ok hi' (listed_after hlisted hs)
    · rintro (h | h) <;> cases h
    · intro h
      cases h

theorem getInstance_publishes (answer : Answer) : Publishes (call (getInstance b) answer) s := by
  apply call_publishes
  intro s' hi' _ _
  unfold getInstance
  cases s'.instances b <;> exact ⟨hi', refl_of Grows s'⟩

theorem instanceStatus_publishes (answer : Answer) : Publishes (call (instanceStatus b) answer) s := by
  apply call_publishes
  intro s' hi' _ _
  unfold instanceStatus
  cases s'.instances b <;> exact ⟨hi', refl_of Grows s'⟩

theorem mark_publishes {status : PublicationStatus} (error : Option String)
    (hreleased : status = .completed → (s.releases b).isSome) : Publishes (mark b status error) s := by
  intro s' hi' hs hc
  obtain ⟨hok, hgrows⟩ := markJob_ok hi' error hc fun h => hs.releases b (hreleased h)
  exact ⟨hok, hgrows, fun _ _ _ => trivial⟩

/-! ## The dispatcher -/

theorem dispatchWorkflow_publishes (hi : PublicationOk s) (hlisted : (s.status b).isSome) (calls : Calls) :
    Publishes (dispatchWorkflow calls b) s := by
  unfold dispatchWorkflow
  apply publishes_bind hi (publishes_attempt (createInstance_publishes hlisted _))
  intro created s₁ hi₁ hs₁
  cases created with
  | ok _ => exact publishes_pure true
  | error cause =>
    apply publishes_bind hi₁ (publishes_attempt (getInstance_publishes _))
    intro found s₂ hi₂ hs₂
    cases found with
    | error _ => exact publishes_fail cause
    | ok _ =>
      apply publishes_bind hi₂ (instanceStatus_publishes _)
      intro stage s₃ hi₃ hs₃
      have hlisted₃ := listed_after hlisted (trans_of Grows hs₁ (trans_of Grows hs₂ hs₃))
      by_cases hfailed : stage = .errored ∨ stage = .terminated
      · rw [if_pos hfailed]
        apply publishes_bind hi₃ (restartInstance_publishes hlisted₃ _)
        exact fun _ _ _ _ => publishes_pure true
      · rw [if_neg hfailed]
        by_cases hcomplete : stage = .complete
        · rw [if_pos hcomplete]
          apply publishes_read_bind
          intro s₄ hi₄ hs₄
          cases hrelease : s₄.releases b with
          | none => exact publishes_fail cause
          | some release =>
            apply publishes_bind hi₄ (mark_publishes none fun _ => by rw [hrelease]; rfl)
            exact fun _ _ _ _ => publishes_pure false
        · rw [if_neg hcomplete]
          exact publishes_pure true

theorem dispatchBy_publishes (hi : PublicationOk s) (hlisted : (s.status b).isSome) (binding : Binding) :
    Publishes (dispatchBy b binding) s := by
  cases binding with
  | publication calls => exact dispatchWorkflow_publishes hi hlisted calls
  | pipeline response =>
    cases response with
    | error message => trivial
    | ok status =>
      simp only [dispatchBy]
      split_ifs
      · exact publishes_pure true
      · trivial
  | unconfigured => trivial

theorem queueJob_listed (s : PublicationState) (b : String) : ((queueJob b s).status b).isSome := by
  rw [status_queueJob, if_pos rfl]
  rfl

theorem enqueuePublication_publishes (binding : Binding) (b : String) :
    Publishes (enqueuePublication binding b) s := by
  unfold enqueuePublication
  split_ifs
  · trivial
  · apply publishes_read_bind
    intro s₁ hi₁ _
    cases s₁.cohorts b with
    | some cohort => exact publishes_pure _
    | none =>
      intro s₂ hi₂ _ _
      obtain ⟨hi₃, hs₃⟩ := queueJob_ok (b := b) hi₂
      refine ⟨hi₃, hs₃, publishes_read_bind fun s₄ hi₄ hs₄ => ?_⟩
      have hlisted := listed_after (queueJob_listed s₂ b) hs₄
      by_cases hdone : s₄.status b = some .dispatched ∨ s₄.status b = some .completed
      · rw [if_pos hdone]
        exact publishes_pure _
      · rw [if_neg hdone]
        apply publishes_bind hi₄ (publishes_attempt (dispatchBy_publishes hi₄ hlisted binding))
        intro dispatched s₅ hi₅ _
        cases dispatched with
        | ok started =>
          cases started with
          | false => exact publishes_pure _
          | true =>
            apply publishes_bind hi₅ (mark_publishes none fun h => by cases h)
            exact fun _ _ _ _ => publishes_pure _
        | error cause =>
          apply publishes_bind hi₅ (mark_publishes (some cause) fun h => by cases h)
          exact fun _ _ _ _ => publishes_fail cause

theorem requeueAll_publishes (hi : PublicationOk s) (binding : Nat → Binding) (builds : List String) :
    Publishes (requeueAll binding builds) s := by
  induction builds generalizing s with
  | nil => exact publishes_pure 0
  | cons buildId rest ih =>
    unfold requeueAll
    apply publishes_bind hi (publishes_attempt (enqueuePublication_publishes _ buildId))
    intro answer s₁ hi₁ _
    have hrest : Publishes (requeueAll binding rest >>= fun dispatched => pure (dispatched + 1)) s₁ :=
      publishes_bind hi₁ (ih hi₁) fun dispatched _ _ _ => publishes_pure (dispatched + 1)
    cases answer with
    | error _ => exact ih hi₁
    | ok queued =>
      obtain ⟨id, dispatched⟩ := queued
      cases dispatched with
      | true => exact hrest
      | false => exact ih hi₁

theorem requeuePublications_publishes (binding : Nat → Binding) (limit : Nat) :
    Publishes (requeuePublications binding limit) s :=
  publishes_read_bind fun _ hi _ => requeueAll_publishes hi binding _

/-! ## The run -/

/-- A step of a run keeps the invariant where what it does keeps it, its instance being where it was. -/
theorem underway_publishes {β : Type} {i : Instance} {act : PublicationState → β × PublicationState}
    {f : β → Prog PublicationState String α}
    (h : ∀ s', PublicationOk s' → Grows s s' → s'.instances b = some i → Orderly s' (act s').2 →
      PublicationOk (act s').2 ∧ Grows s' (act s').2 ∧ Publishes (f (act s').1) (act s').2) :
    Publishes (underway b i act >>= f) s := by
  unfold underway
  apply publishes_transact_bind
  intro s' hi' hs hc
  by_cases hinstance : s'.instances b = some i
  · simp only [hinstance, if_true] at hc ⊢
    obtain ⟨hok, hgrows, hnext⟩ := h s' hi' hs hinstance hc
    refine ⟨hok, hgrows, fun x hx => ?_⟩
    cases hx
    exact hnext
  · simp only [hinstance, if_false] at hc ⊢
    exact ⟨hi', refl_of Grows s', fun x hx => nomatch hx⟩

theorem underway_last {i : Instance} {act : PublicationState → Unit × PublicationState}
    (h : ∀ s', PublicationOk s' → Grows s s' → s'.instances b = some i → Orderly s' (act s').2 →
      PublicationOk (act s').2 ∧ Grows s' (act s').2) : Publishes (underway b i act) s := by
  intro s' hi' hs hc
  by_cases hinstance : s'.instances b = some i
  · simp only [hinstance, if_true] at hc ⊢
    obtain ⟨hok, hgrows⟩ := h s' hi' hs hinstance hc
    exact ⟨hok, hgrows, keeps_ofExcept fun _ _ _ _ _ => trivial⟩
  · simp only [hinstance, if_false] at hc ⊢
    exact ⟨hi', refl_of Grows s', keeps_ofExcept fun _ _ _ _ _ => trivial⟩

theorem publishStep_publishes (i : Instance) (a : Attempt) : Publishes (publishStep b i a) s := by
  unfold publishStep
  by_cases hfirst : a.stopsAfter = 0
  · rw [if_pos hfirst]
    trivial
  · rw [if_neg hfirst]
    apply underway_publishes
    intro s₁ hi₁ _ _ _
    have hpublished : PublicationOk (publishBuild a.releaseId b s₁).2 ∧ Grows s₁ (publishBuild a.releaseId b s₁).2 ∧
        ((publishBuild a.releaseId b s₁).2.releases b).isSome := by
      unfold publishBuild
      cases hrelease : s₁.releases b with
      | some release => exact ⟨hi₁, refl_of Grows s₁, by rw [hrelease]; rfl⟩
      | none =>
        obtain ⟨hok, hgrows⟩ := release_ok (b := b) hi₁ a.releaseId
        exact ⟨hok, hgrows, by simp⟩
    obtain ⟨hok, hgrows, hreleased⟩ := hpublished
    refine ⟨hok, hgrows, ?_⟩
    by_cases hsecond : a.stopsAfter = 1
    · rw [if_pos hsecond]
      trivial
    · rw [if_neg hsecond]
      apply underway_publishes
      intro s₂ hi₂ hs₂ _ hc
      obtain ⟨hok₂, hgrows₂⟩ := markJob_ok hi₂ none hc fun _ => hs₂.releases b hreleased
      refine ⟨hok₂, hgrows₂, ?_⟩
      by_cases hthird : a.stopsAfter = 2
      · rw [if_pos hthird]
        trivial
      · rw [if_neg hthird]
        exact publishes_pure _

theorem stepDo_publishes (hi : PublicationOk s) (i : Instance) (attempts : Nat → Attempt) (retries : Nat) :
    Publishes (stepDo b i attempts retries) s := by
  induction retries generalizing s with
  | zero => exact publishStep_publishes i _
  | succ retries ih =>
    unfold stepDo
    apply publishes_bind hi (publishes_attempt (publishStep_publishes i _))
    intro answer s₁ hi₁ _
    cases answer with
    | ok release => exact publishes_pure release
    | error _ => exact ih hi₁

theorem publicationRun_publishes (attempts : Nat → Attempt) (b : String) : Publishes (publicationRun attempts b) s := by
  unfold publicationRun
  apply publishes_transact_bind
  intro s₁ hi₁ _ _
  have htaken : PublicationOk (takeUp b s₁).2 ∧ Grows s₁ (takeUp b s₁).2 := by
    unfold takeUp
    rcases hinstance : s₁.instances b with _ | ⟨generation, stage⟩
    · exact ⟨hi₁, refl_of Grows s₁⟩
    · cases stage with
      | queued =>
        apply setInstance_ok hi₁ (hi₁.listed b (by rw [stage_of_instance hinstance]; rfl))
        · rintro (h | h) <;> cases h
        · intro h
          cases h
      | _ => exact ⟨hi₁, refl_of Grows s₁⟩
  refine ⟨htaken.1, htaken.2, fun i _ => ?_⟩
  apply publishes_bind htaken.1 (publishes_attempt (stepDo_publishes htaken.1 i attempts 3))
  intro answer s₂ hi₂ _
  have hlisted : ∀ {s' : PublicationState} {i' : Instance}, PublicationOk s' → s'.instances b = some i' →
      (s'.status b).isSome := by
    intro s' i' hi' hinstance
    exact hi'.listed b (by rw [stage_of_instance hinstance]; rfl)
  cases answer with
  | ok release =>
    apply underway_last
    intro s₃ hi₃ _ hinstance _
    apply setInstance_ok hi₃ (hlisted hi₃ hinstance)
    · rintro (h | h) <;> cases h
    · intro h
      cases h
  | error cause =>
    apply underway_publishes
    intro s₃ hi₃ _ hinstance hc
    have hmarked : Orderly s₃ (markJob b .failed (some cause) s₃) := by
      intro c
      refine ⟨fun hover hsuccess => (hc c).1 hover hsuccess, fun herrored hnot => ?_⟩
      rw [PublicationState.stage, markJob_instances] at herrored
      exact absurd herrored hnot
    obtain ⟨hok, hgrows⟩ := markJob_ok hi₃ (some cause) hmarked fun h => by cases h
    have hstatus := status_markJob (s := s₃) (b := b) (c := b) .failed (some cause)
    rw [if_pos rfl] at hstatus
    obtain ⟨hok', hgrows'⟩ := setInstance_ok (b := b) (i := { i with stage := .failing }) hok
      (by rw [hstatus]; rfl)
      (fun _ h => by rw [hstatus] at h; split_ifs at h <;> cases h) (fun h => by cases h)
    refine ⟨hok', trans_of Grows hgrows hgrows', ?_⟩
    apply underway_last
    intro s₄ hi₄ _ hfailing hc₄
    have hstage := stage_of_instance hfailing
    apply setInstance_ok hi₄ (hlisted hi₄ hfailing)
    · exact fun _ => hi₄.undispatched b (.inl hstage)
    · intro _
      apply (hc₄ b).2
      · rw [stage_setInstance, if_pos rfl]
      · rw [hstage]
        intro h
        cases h

theorem publicationEndpoint_publishes (hi : PublicationOk s) (token : Option String) (calls : Option Calls)
    (request : EndpointRequest) : Publishes (publicationEndpoint token calls request) s := by
  unfold publicationEndpoint
  split_ifs
  · exact publishes_pure 405
  · exact publishes_pure 401
  · exact publishes_pure 413
  · cases request.buildId with
    | error _ => exact publishes_pure 400
    | ok buildId =>
      cases calls with
      | none => exact publishes_pure 503
      | some calls =>
        apply publishes_bind hi (publishes_attempt (enqueuePublication_publishes _ buildId))
        intro answer s₁ _ _
        cases answer with
        | ok _ => exact publishes_pure 202
        | error _ => exact publishes_pure 503

end

/-! ## Any order -/

/-- Who writes job rows. -/
inductive PublicationRequest : Nat → Prog PublicationState String Unit → Prop where
  | enqueue (n : Nat) (binding : Binding) (buildId : String) :
      PublicationRequest n (do let _ ← enqueuePublication binding buildId)
  | endpoint (n : Nat) (token : Option String) (calls : Option Calls) (request : EndpointRequest) :
      PublicationRequest n (do let _ ← publicationEndpoint token calls request)
  | requeue (n : Nat) (binding : Nat → Binding) (limit : Nat) :
      PublicationRequest n (do let _ ← requeuePublications binding limit)
  | run (n : Nat) (attempts : Nat → Attempt) (buildId : String) :
      PublicationRequest n (publicationRun attempts buildId)

/-- What changes besides: the clock, cohorts, releases that others publish, and
instances that an operator terminates. -/
structure Outside (s s' : PublicationState) : Prop where
  jobs : s'.jobs = s.jobs
  releases : ∀ b, (s.releases b).isSome → (s'.releases b).isSome
  instances : ∀ b, s'.stage b = s.stage b ∨ ((s.stage b).isSome ∧ s'.stage b = some .terminated)

theorem Outside.ok {s s' : PublicationState} (h : Outside s s') (hi : PublicationOk s) :
    PublicationOk s' ∧ Grows s s' := by
  have hstatus : ∀ b, s'.status b = s.status b := by
    intro b
    rw [PublicationState.status, PublicationState.job, h.jobs]
    rfl
  refine ⟨⟨fun b hb => ?_, fun b hb => ?_, fun b hb => ?_, fun b hb => ?_⟩, grows_of_eq hstatus h.releases⟩
  · rw [hstatus]
    rcases h.instances b with hsame | ⟨hsome, -⟩
    · exact hi.listed b (hsame ▸ hb)
    · exact hi.listed b hsome
  · exact h.releases b (hi.released b (hstatus b ▸ hb))
  · rw [hstatus]
    rcases h.instances b with hsame | ⟨-, hterminated⟩
    · exact hi.undispatched b (hsame ▸ hb)
    · rw [hterminated] at hb
      rcases hb with hb | hb <;> cases hb
  · rw [hstatus]
    rcases h.instances b with hsame | ⟨-, hterminated⟩
    · exact hi.uncompleted b (hsame ▸ hb)
    · rw [hterminated] at hb
      cases hb

theorem publication_agree : Pool.Agree PublicationRequest Outside PublicationOk Orderly (fun _ => Grows) (fun _ => Grows)
    (fun _ _ => True) where
  refl _ := inferInstance
  trans _ := inferInstance
  start := by
    intro n p s hp hi
    cases hp with
    | enqueue binding buildId =>
      exact publishes_bind hi (enqueuePublication_publishes binding buildId) fun _ _ _ _ => publishes_pure ()
    | endpoint token calls request =>
      exact publishes_bind hi (publicationEndpoint_publishes hi token calls request) fun _ _ _ _ => publishes_pure ()
    | requeue binding limit =>
      exact publishes_bind hi (requeuePublications_publishes binding limit) fun _ _ _ _ => publishes_pure ()
    | run attempts buildId => exact publicationRun_publishes attempts buildId
  others _ _ _ h := h
  outside h hi := ⟨(h.ok hi).1, fun _ => (h.ok hi).2⟩

/-- Nothing was ever published. -/
def Fresh (s : PublicationState) : Prop := s.jobs = [] ∧ ∀ b, s.instances b = none

theorem fresh_ok {s : PublicationState} (h : Fresh s) : PublicationOk s := by
  have hstage : ∀ b, s.stage b = none := fun b => by rw [PublicationState.stage, h.2]; rfl
  have hstatus : ∀ b, s.status b = none := fun b => by rw [PublicationState.status, PublicationState.job, h.1]; rfl
  refine ⟨fun b hb => ?_, fun b hb => ?_, fun b _ hb => ?_, fun b _ hb => ?_⟩
  · rw [hstage] at hb
    cases hb
  all_goals
    rw [hstatus] at hb
    cases hb

theorem grows_of_stepsIn {pool later : Pool PublicationState String Unit}
    (hgood : pool.Good PublicationOk Orderly (fun _ => Grows) (fun _ => Grows) (fun _ _ => True))
    (hsteps : Pool.StepsIn PublicationRequest Outside Orderly pool later) : Grows pool.state later.state := by
  induction hsteps with
  | refl => exact refl_of Grows _
  | tail hsteps hnext ih =>
    have hmiddle := hgood.stepsIn publication_agree hsteps
    refine trans_of Grows ih ?_
    rcases hmiddle.next_state (fun _ => inferInstance) hnext.1 hnext.2 with hsame | ⟨n, hgrows⟩ | hmove
    · rw [hsame]
      exact refl_of Grows _
    · exact hgrows
    · exact (hmove.ok hmiddle.1).2

/-- In an orderly run a completed job stays completed and has a release, and
the job of an instance that ended with an error is queued or failed. -/
theorem publication_retried (s : PublicationState) (hfresh : Fresh s) (pool later : Pool PublicationState String Unit)
    (hsteps : Pool.StepsIn PublicationRequest Outside Orderly ⟨s, []⟩ pool)
    (hlater : Pool.StepsIn PublicationRequest Outside Orderly pool later) (b : String) :
    (pool.state.status b = some .completed →
      later.state.status b = some .completed ∧ (pool.state.releases b).isSome) ∧
    (pool.state.stage b = some .errored →
      pool.state.status b = some .queued ∨ pool.state.status b = some .failed) := by
  have hgood := (Pool.good_start (fresh_ok hfresh)).stepsIn publication_agree hsteps
  have hi := hgood.1
  constructor
  · intro hcompleted
    exact ⟨(grows_of_stepsIn hgood hlater).completed b hcompleted, hi.released b hcompleted⟩
  · intro herrored
    have hlisted := hi.listed b (by rw [herrored]; rfl)
    have hdispatched := hi.undispatched b (.inr herrored)
    have hcompleted := hi.uncompleted b herrored
    cases hstatus : pool.state.status b with
    | none =>
      rw [hstatus] at hlisted
      cases hlisted
    | some status =>
      rw [hstatus] at hdispatched hcompleted
      cases status with
      | queued => exact .inl rfl
      | failed => exact .inr rfl
      | dispatched => exact absurd rfl hdispatched
      | completed => exact absurd rfl hcompleted

/-! ## A run that is over before it is dispatched -/

def noPublications : PublicationState := ⟨1000, [], fun _ => none, fun _ => none, fun _ => none⟩

def answeredCalls : Calls := ⟨.answered, .answered, .answered, .answered⟩

/-- The step's four attempts fail: the build cannot be published. -/
def refusedAttempts (_ : Nat) : Attempt := ⟨0, "Only a successful build can enter quarantine.", "r"⟩

def publicationStarted : Pool PublicationState String Unit :=
  ((⟨noPublications, []⟩ : Pool PublicationState String Unit).starting
    (do let _ ← enqueuePublication (.publication answeredCalls) "b")).turns [0, 0, 0, 0]

/-- The run fails, and its dispatcher records after it that it was dispatched. -/
def dispatchedLate : Pool PublicationState String Unit :=
  (publicationStarted.starting (publicationRun refusedAttempts "b")).turns [1, 1, 1, 0]

def atRest {σ ε α : Type} : Prog σ ε α → Bool
  | .step _ _ => false
  | _ => true

theorem dispatchedLate_view : dispatchedLate.state.status "b" = some .dispatched ∧
    dispatchedLate.state.stage "b" = some .errored ∧ dispatchedLate.tasks.all atRest = true ∧
    dueJobs 20 { dispatchedLate.state with clock := 2000 } = [] := by decide +kernel

theorem dispatchedLate_steps : Pool.Steps PublicationRequest Outside ⟨noPublications, []⟩ dispatchedLate := by
  have hstart : Pool.Steps PublicationRequest Outside ⟨noPublications, []⟩
      (⟨noPublications, []⟩ : Pool PublicationState String Unit) := .refl
  have hqueued := (hstart.starting (.enqueue _ (.publication answeredCalls) "b")).turns [0, 0, 0, 0]
  exact (hqueued.starting (.run _ refusedAttempts "b")).turns [1, 1, 1, 0]

/-- Every program is at rest, the instance ended with an error, and the job
says that it was dispatched: it is not picked up again. -/
theorem publication_stranded : ¬∀ pool, Pool.Steps PublicationRequest Outside ⟨noPublications, []⟩ pool →
    pool.tasks.all atRest = true → pool.state.stage "b" = some .errored →
      pool.state.status "b" = some .queued ∨ pool.state.status "b" = some .failed := by
  intro h
  obtain ⟨hstatus, hstage, hrest, -⟩ := dispatchedLate_view
  have hretried := h dispatchedLate dispatchedLate_steps hrest hstage
  rw [hstatus] at hretried
  rcases hretried with hretried | hretried <;> cases hretried

/-! ## A run that is dispatched in time -/

/-- Only the build `b` has an instance. -/
def Only (s : PublicationState) : Prop := ∀ c, c ≠ "b" → s.instances c = none

theorem only_set {f : String → Option Instance} (h : ∀ c, c ≠ "b" → f c = none) (i : Option Instance) :
    ∀ c, c ≠ "b" → Function.update f "b" i c = none := by
  intro c hc
  rw [Function.update_of_ne hc]
  exact h c hc

theorem orderly_only {s s' : PublicationState} (h : Only s) (h' : Only s')
    (hb : Over (s.stage "b") → (s'.status "b" = some .dispatched ∨ s'.status "b" = some .completed) →
      s.status "b" = s'.status "b")
    (hend : s'.stage "b" = some .errored → s.stage "b" ≠ some .errored → s.status "b" ≠ some .completed) :
    Orderly s s' := by
  intro c
  by_cases hc : c = "b"
  · subst hc
    exact ⟨hb, hend⟩
  · have hstage : s.stage c = none := by rw [PublicationState.stage, h c hc]; rfl
    have hstage' : s'.stage c = none := by rw [PublicationState.stage, h' c hc]; rfl
    constructor
    · intro hover
      rw [hstage] at hover
      rcases hover with hover | hover <;> cases hover
    · intro herrored
      rw [hstage'] at herrored
      cases herrored

instance : DecidablePred Over := fun _ => inferInstanceAs (Decidable (_ ∨ _))

def dispatchedInTime : Pool PublicationState String Unit :=
  ((⟨noPublications, []⟩ : Pool PublicationState String Unit).starting
    (do let _ ← enqueuePublication (.publication answeredCalls) "b")).turns [0, 0, 0, 0, 0]

def failedInTime : Pool PublicationState String Unit :=
  (dispatchedInTime.starting (publicationRun refusedAttempts "b")).turns [1, 1, 1]

theorem orderly_refl (s : PublicationState) : Orderly s s := fun _ => ⟨fun _ _ => rfl, fun h h' => absurd h h'⟩

theorem dispatchedInTime_steps :
    Pool.StepsIn PublicationRequest Outside Orderly ⟨noPublications, []⟩ dispatchedInTime := by
  apply Relation.ReflTransGen.head ⟨Pool.starting_next _ (.enqueue _ (.publication answeredCalls) "b"), orderly_refl _⟩
  apply Pool.turns_stepsIn
  have hnone : ∀ c, c ≠ "b" → (fun _ : String => (none : Option Instance)) c = none := fun _ _ => rfl
  intro k hk
  have hk' : k = 0 ∨ k = 1 ∨ k = 2 ∨ k = 3 ∨ k = 4 := by simp at hk; omega
  rcases hk' with rfl | rfl | rfl | rfl | rfl
  · exact orderly_only hnone hnone (by decide +kernel) (by decide +kernel)
  · exact orderly_only hnone hnone (by decide +kernel) (by decide +kernel)
  · exact orderly_only hnone hnone (by decide +kernel) (by decide +kernel)
  · exact orderly_only hnone (only_set hnone _) (by decide +kernel) (by decide +kernel)
  · exact orderly_only (only_set hnone _) (only_set hnone _) (by decide +kernel) (by decide +kernel)

theorem failedInTime_steps : Pool.StepsIn PublicationRequest Outside Orderly dispatchedInTime failedInTime := by
  apply Relation.ReflTransGen.head ⟨Pool.starting_next _ (.run _ refusedAttempts "b"), orderly_refl _⟩
  apply Pool.turns_stepsIn
  have hnone : ∀ c, c ≠ "b" → (fun _ : String => (none : Option Instance)) c = none := fun _ _ => rfl
  have hqueued := only_set hnone (some ⟨0, .queued⟩)
  have hrunning := only_set hqueued (some ⟨0, .running⟩)
  have hfailing := only_set hrunning (some ⟨0, .failing⟩)
  intro k hk
  have hk' : k = 0 ∨ k = 1 ∨ k = 2 := by simp at hk; omega
  rcases hk' with rfl | rfl | rfl
  · exact orderly_only hqueued hrunning (by decide +kernel) (by decide +kernel)
  · exact orderly_only hrunning hfailing (by decide +kernel) (by decide +kernel)
  · exact orderly_only hfailing (only_set hfailing (some ⟨0, .errored⟩)) (by decide +kernel) (by decide +kernel)

theorem failedInTime_retried :
    failedInTime.state.status "b" = some .queued ∨ failedInTime.state.status "b" = some .failed :=
  (publication_retried noPublications ⟨rfl, fun _ => rfl⟩ failedInTime failedInTime
    (dispatchedInTime_steps.trans failedInTime_steps) .refl "b").2 (by decide +kernel)

end Omapkg.Server.Publication
