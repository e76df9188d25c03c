import Omapkg.Server.CohortHistory
/-!
# Runs of cohort commands

In every run of proposals, sealed uploads, phase changes and changelog actions
the cohort's events are one hash chain, and its facts are generated whenever
they are asked for.
-/

namespace Omapkg.Server.Cohort

open Utf Json Prog

/-- What a command keeps, whoever runs beside it. -/
abbrev Commits {α : Type} (env : CohortEnv) (Q : α → CohortDb → Prop) (p : Prog CohortDb PolicyError α) (s : CohortDb) :
    Prop :=
  Keeps (Chained env) (fun _ _ => True) Grows Grows Q p s

/-- `Commits`, of a program that never fails. -/
abbrev Answers {α : Type} (env : CohortEnv) (Q : α → CohortDb → Prop) (p : Prog CohortDb PolicyError α) (s : CohortDb) :
    Prop :=
  Succeeds (Chained env) (fun _ _ => True) Grows Grows Q p s

section
variable {env : CohortEnv} {current : CohortRow} {s : CohortDb}

theorem commits_pure {α : Type} (a : α) : Commits env (fun _ _ => True) (pure a) s := fun _ _ _ => trivial

theorem answers_pure {α : Type} {Q : α → CohortDb → Prop} {a : α} (h : ∀ s, Q a s) : Answers env Q (pure a) s :=
  fun s' _ _ => h s'

/-! ## Reading the cohort -/

theorem getCohort_keeps : Commits env (Committed env) (getCohort env) s := by
  unfold getCohort
  refine keeps_read_bind fun s₁ hi₁ _ => ?_
  cases hjoined : joined s₁ with
  | none => trivial
  | some row =>
    show Commits env (Committed env) (readCohortManifest env row.manifestJson row.manifestSha256 >>= fun _ => pure row) s₁
    unfold readCohortManifest
    split
    · trivial
    · exact fun s₂ _ hs₂ => (joined_committed hi₁ hjoined).grows hs₂

theorem findCohort_keeps :
    Commits env (fun found s => ∀ row ∈ found, Committed env row s) (findCohort env) s := by
  unfold findCohort
  refine keeps_read_bind fun s₁ hi₁ _ => ?_
  split
  · refine keeps_bind hi₁ getCohort_keeps fun row s₂ _ hrow => ?_
    intro s₃ _ hs₃ row' hrow'
    cases hrow'
    exact hrow.grows hs₃
  · exact fun s₂ _ _ row hrow => nomatch hrow

/-! ## Committing -/

section
variable {e : CohortEvent} {command actor : String} {timestamp : Nat} {input : CohortEventInput} {α : Type}
  {Q : α → CohortDb → Prop} {f : List Nat → Prog CohortDb PolicyError α}

theorem eventBatch_keeps (before : List (Sql.Statement CohortDb)) (hc : Committed env current s)
    (he : cohortEvent env current actor timestamp input none = .ok e) (hbefore : ∀ statement ∈ before, Leaves statement)
    (hf : ∀ ns s, Chained env s → Commits env Q (f ns) s) :
    Commits env Q (runBatch (before ++ eventStatements env current command e) >>= f) s := by
  refine Sql.keeps_run_bind fun s₁ s₂ ns hi₁ hs₁ hrun _ => ?_
  obtain ⟨s₃, n₃, ns₃, hsame, hevent⟩ := Sql.runAll_append hbefore hrun
  obtain ⟨⟨record, hrecord, hrevision, hsequence⟩, hwrote⟩ := eventStatements_ok hevent
  have hc₃ : Committed env current s₃ := (hc.grows hs₁).grows hsame.grows
  have hi₂ : Chained env s₂ := (hi₁.same hsame).commit hc₃ he .none hrecord hrevision hsequence hwrote
  exact ⟨hi₂, hsame.grows.trans hwrote.grows, hf ns s₂ hi₂⟩

/-- A new scope continues what was read, or is the first. -/
theorem scopeBatch_keeps (before : List (Sql.Statement CohortDb)) {found : Option CohortRow} {json : List Char} (hc : ∀ row ∈ found, Committed env row s)
    (he : cohortEvent env (found.getD (newCohort json (env.digest json))) actor timestamp input
      (some ((found.map (·.currentRevision)).getD 0 + 1, env.digest json)) = .ok e)
    (hbefore : ∀ statement ∈ before, Leaves statement) (hf : ∀ ns s, Chained env s → Commits env Q (f ns) s) :
    Commits env Q (runBatch (before ++ scopeStatements env found (found.getD (newCohort json (env.digest json)))
      ⟨(found.map (·.currentRevision)).getD 0 + 1, json, env.digest json⟩ e) >>= f) s := by
  refine Sql.keeps_run_bind fun s₁ s₂ ns hi₁ hs₁ hrun _ => ?_
  obtain ⟨s₃, n₃, ns₃, hsame, hscope⟩ := Sql.runAll_append hbefore hrun
  obtain ⟨hfound, hwrote⟩ := scopeStatements_ok hscope
  have hi₃ : Chained env s₃ := hi₁.same hsame
  have hi₂ : Chained env s₂ := by
    cases found with
    | none =>
      rcases hfound with ⟨-, habsent⟩ | ⟨record, hrecord, hrevision, hsequence⟩
      · exact hi₃.create (r := ⟨1, json, env.digest json⟩) habsent he rfl rfl hwrote
      · -- no cohort has a row without events
        obtain ⟨history, hsound⟩ := hi₃
        obtain ⟨hlength, -⟩ := (hsound.latest record hrecord).sequence hsound.toHistory
        obtain ⟨last, r, hlast, -⟩ := hsound.latest record hrecord
        rw [hsequence, hsound.toHistory.length] at hlength
        rw [List.length_eq_zero_iff.mp hlength.symm] at hlast
        cases hlast
    | some row =>
      rcases hfound with ⟨hnone, -⟩ | ⟨record, hrecord, hrevision, hsequence⟩
      · cases hnone
      · have hc₃ : Committed env row s₃ := ((hc row rfl).grows hs₁).grows hsame.grows
        exact hi₃.commit hc₃ he (.revision ⟨row.currentRevision + 1, json, env.digest json⟩ rfl rfl) hrecord hrevision hsequence hwrote
  exact ⟨hi₂, hsame.grows.trans hwrote.grows, hf ns s₂ hi₂⟩

end

/-! ## Walking the history -/

section
variable {revisions : List RevisionRow} {events : List EventRow} {history : List CohortEvent} {w : Walk}

/-- The loop has passed the first events of the history. -/
structure Walked (env : CohortEnv) (history : List CohortEvent) (w : Walk) : Prop where
  within : w.sequence ≤ history.length
  previousEvent : w.previousEvent = (history.take w.sequence).getLast?.map fun e => env.digest e.json

/-- Rows that go on where the loop is. -/
def Follows (env : CohortEnv) (history : List CohortEvent) (sequence : Nat) (rows : List EventRow) : Prop :=
  ∀ i row, rows[i]? = some row → row.sequence = sequence + i + 1 ∧
    ∀ e, history[sequence + i]? = some e → row.kept = e.kept env

theorem Follows.tail {sequence : Nat} {row : EventRow} {rows : List EventRow}
    (h : Follows env history sequence (row :: rows)) : Follows env history (sequence + 1) rows := by
  intro i row' hrow'
  have hat := h (i + 1) row' (by simpa using hrow')
  rwa [show sequence + (i + 1) = sequence + 1 + i by omega] at hat

theorem walkRow_ok (h : History env revisions events history) (hw : Walked env history w) {e : CohortEvent}
    (he : history[w.sequence]? = some e) {row : EventRow} (hrow : row.kept = e.kept env) :
    ∃ w', walkRow env current w row = .ok w' ∧ w'.sequence = w.sequence + 1 ∧ Walked env history w' := by
  have hrowSequence : row.sequence = e.sequence := congrArg (·.1) hrow
  have hrowJson : row.eventJson = e.json := congrArg (·.2.2.1) hrow
  have hrowSha : row.eventSha256 = env.digest e.json := congrArg (·.2.2.2) hrow
  have hsequence : e.sequence = w.sequence + 1 := h.sequence he
  obtain ⟨v, hparse, hnumber, hid, hprevious⟩ := parseJson_event e
  have hlink := h.link he
  rw [h.cohort e (List.mem_of_getElem? he)] at hid
  rw [hlink.previous, ← hw.previousEvent] at hprevious
  have hgood : ¬(row.sequence ≠ w.sequence + 1 ∨ isNumber row.sequence (property "sequence" v) = false ∨
      isText env.cohortId (property "cohortId" v) = false ∨
      isTextOrNull w.previousEvent (property "previousEventSha256" v) = false ∨
      env.digest row.eventJson ≠ row.eventSha256) := by
    rintro (hne | hne | hne | hne | hne)
    · exact hne (hrowSequence.trans hsequence)
    · rw [hrowSequence, hnumber] at hne
      cases hne
    · rw [hid] at hne
      cases hne
    · rw [hprevious] at hne
      cases hne
    · exact hne (by rw [hrowJson, hrowSha])
  have hwalk : walkRow env current w row = .ok ⟨row.sequence, some row.eventSha256,
      if isPhase current v then w.phases ++ [⟨v, row.eventSha256⟩] else w.phases⟩ := by
    rw [walkRow, hrowJson, hparse]
    rw [hrowJson] at hgood
    exact if_neg hgood
  refine ⟨_, hwalk, hrowSequence.trans hsequence, ?_, ?_⟩
  · show row.sequence ≤ history.length
    rw [hrowSequence, hsequence]
    exact (List.getElem?_eq_some_iff.mp he).1
  · show some row.eventSha256 = _
    obtain ⟨hlt, rfl⟩ := List.getElem?_eq_some_iff.mp he
    rw [hrowSha, hrowSequence, hsequence, List.getLast?_take, if_neg (Nat.succ_ne_zero _), Nat.add_sub_cancel, he]
    rfl

/-- The rows are taken up to the last event of the row that was read. -/
theorem walkRows_ok (h : History env revisions events history) (hcurrent : current.eventSequence = history.length)
    {rows : List EventRow} (hw : Walked env history w) (hrows : Follows env history w.sequence rows) :
    ∃ w', walkRows env current w rows = .ok w' ∧ Walked env history w' ∧ w.sequence ≤ w'.sequence ∧
      (w.sequence < history.length → rows ≠ [] → w.sequence < w'.sequence) := by
  induction rows generalizing w with
  | nil => exact ⟨w, rfl, hw, Nat.le_refl _, fun _ hne => absurd rfl hne⟩
  | cons row rows ih =>
    obtain ⟨hsequence, hkept⟩ := hrows 0 row rfl
    rw [walkRows]
    by_cases hend : w.sequence < history.length
    · have he : history[w.sequence]? = some history[w.sequence] := List.getElem?_eq_getElem hend
      obtain ⟨w₁, hwalk, hstep, hw₁⟩ := walkRow_ok h hw he (hkept _ he)
      obtain ⟨w', hrest, hw', hle, -⟩ := ih hw₁ (hstep ▸ hrows.tail)
      refine ⟨w', ?_, hw', by omega, fun _ _ => by omega⟩
      rw [if_neg (by omega), hwalk]
      exact hrest
    · refine ⟨w, if_pos (by omega), hw, Nat.le_refl _, fun hlt => absurd hlt hend⟩

/-- What is read of the table goes on where the loop is. -/
theorem cohortEvents_follows {now : List CohortEvent} {k : Nat} (hsound : Sound env s now) (hevents : events <+: s.events)
    (h : History env revisions events history) :
    Follows env history k (cohortEvents k 100 s) ∧ (k < history.length → cohortEvents k 100 s ≠ []) := by
  have hat {i : Nat} {row : EventRow} (hi : s.events[i]? = some row) : row.sequence = i + 1 :=
    hsound.toHistory.rowSequence hi
  have hfilter : s.events.filter (k < ·.sequence) = s.events.drop k := by
    conv_lhs => rw [← List.take_append_drop k s.events]
    rw [List.filter_append]
    have htake : (s.events.take k).filter (k < ·.sequence) = [] := by
      refine List.filter_eq_nil_iff.mpr fun row hrow => ?_
      obtain ⟨i, hi, rfl⟩ := List.mem_take_iff_getElem.mp hrow
      have hseq := hat (List.getElem?_eq_getElem (i := i) (by omega))
      simp only [decide_eq_true_eq]
      omega
    have hdrop : (s.events.drop k).filter (k < ·.sequence) = s.events.drop k := by
      refine List.filter_eq_self.mpr fun row hrow => ?_
      obtain ⟨i, hi, rfl⟩ := List.mem_drop_iff_getElem.mp hrow
      have hseq := hat (List.getElem?_eq_getElem (i := k + i) (by omega))
      simp only [decide_eq_true_eq]
      omega
    rw [htake, hdrop, List.nil_append]
  have hsorted : (s.events.drop k).Pairwise fun a b => a.sequence ≤ b.sequence := by
    rw [List.pairwise_iff_getElem]
    intro i j hi hj hij
    rw [List.getElem_drop, List.getElem_drop]
    rw [List.length_drop] at hi hj
    have hleft := hat (List.getElem?_eq_getElem (i := k + i) (by omega))
    have hright := hat (List.getElem?_eq_getElem (i := k + j) (by omega))
    omega
  have hrows : cohortEvents k 100 s = (s.events.drop k).take 100 := by
    rw [cohortEvents, hfilter, hsorted.insertionSort_eq]
    rfl
  rw [hrows]
  constructor
  · intro i row hi
    rw [List.getElem?_take] at hi
    split at hi
    · rw [List.getElem?_drop] at hi
      refine ⟨hat hi, fun e he => ?_⟩
      obtain ⟨row', hrow', hkept⟩ := h.row he
      have hnow : s.events[k + i]? = some row' := by
        obtain ⟨later, hlater⟩ := hevents
        rwa [← hlater, List.getElem?_append_left (List.getElem?_eq_some_iff.mp hrow').1]
      rw [Option.some.inj (hi.symm.trans hnow)]
      exact hkept
    · cases hi
  · intro hk hnil
    have hlen := congrArg List.length hnil
    have hle := hevents.length_le
    rw [h.length] at hle
    simp only [List.length_take, List.length_drop, List.length_nil] at hlen
    omega

theorem walkHistory_answers (h : History env revisions events history)
    (hcurrent : current.eventSequence = history.length) {fuel : Nat} (hw : Walked env history w)
    (hfuel : history.length ≤ w.sequence + fuel) (hevents : events <+: s.events) :
    Answers env (fun w' _ => Walked env history w' ∧ w'.sequence = history.length) (walkHistory env current fuel w) s := by
  induction fuel generalizing w s with
  | zero =>
    unfold walkHistory
    rw [if_neg (by omega)]
    exact answers_pure fun _ => ⟨hw, by have := hw.within; omega⟩
  | succ fuel ih =>
    unfold walkHistory
    by_cases hend : w.sequence < history.length
    · rw [if_pos (by omega)]
      refine succeeds_read_bind fun s₁ hi₁ hs₁ => ?_
      obtain ⟨now, hsound⟩ := hi₁
      have hevents₁ : events <+: s₁.events := hevents.trans hs₁.events
      obtain ⟨hfollows, hsome⟩ := cohortEvents_follows (k := w.sequence) hsound hevents₁ h
      rw [if_neg (hsome hend)]
      obtain ⟨w', hwalk, hw', -, hprogress⟩ := walkRows_ok h hcurrent hw hfollows
      rw [hwalk]
      have hstep := hprogress hend (hsome hend)
      exact ih hw' (by omega) hevents₁
    · rw [if_neg (by omega)]
      exact answers_pure fun _ => ⟨hw, by have := hw.within; omega⟩

end

/-! ## Facts -/

theorem readCohortManifest_answers {json : List Char} {sha256 : String} (h : env.digest json = sha256) :
    Answers env (fun _ s' => Grows s s') (readCohortManifest env json sha256) s := by
  unfold readCohortManifest
  rw [if_neg (not_not.mpr h)]
  exact fun _ _ hs => hs

theorem previousCohortScope_answers (hc : Committed env current s) :
    Answers env (fun _ s' => Grows s s') (previousCohortScope env current) s := by
  unfold previousCohortScope
  split
  · exact fun _ _ hs => hs
  · next hlater =>
    refine succeeds_read_bind fun s₁ hi₁ hs₁ => ?_
    obtain ⟨revisions, events, history, hrevisions, -, hhistory, hlatest, -⟩ := hc.grows hs₁
    have hcount := (hlatest.sequence hhistory).2
    have hpos : revisions.length ≠ 0 := by
      obtain ⟨e, r, -, -, hr, -⟩ := hlatest
      intro hzero
      rw [List.length_eq_zero_iff.mp hzero] at hr
      cases hr
    obtain ⟨now, hsound⟩ := hi₁
    have hlt : current.currentRevision - 2 < s₁.revisions.length := by
      have hle := hrevisions.length_le
      omega
    -- the revision before the one that was read
    have hnumber : s₁.revisions[current.currentRevision - 2].revision = current.currentRevision - 1 := by
      have hat := congrArg (·[current.currentRevision - 2]?) hsound.numbered
      simp only [List.getElem?_map, List.getElem?_eq_getElem hlt, Option.map_some, List.getElem?_range' hlt,
        Option.some.injEq] at hat
      omega
    have hfound := find_revision hsound.numbered (List.getElem_mem hlt)
    rw [hnumber] at hfound
    simp only [hfound]
    refine succeeds_bind ⟨now, hsound⟩ (readCohortManifest_answers (hsound.intact _ (List.getElem_mem hlt))) ?_
    exact fun _ s₂ _ hs₂ s₃ _ hs₃ => (hs₁.trans hs₂).trans hs₃

/-- The facts of a row that was read are generated, whatever else happens. -/
theorem generateCohortFacts_answers (hi : Chained env s) (hc : Committed env current s) :
    Answers env (fun _ _ => True) (generateCohortFacts env current) s := by
  have hintact : env.digest current.manifestJson = current.manifestSha256 := by
    obtain ⟨revisions, events, history, -, -, hhistory, -, r, hr, hjson, hsha⟩ := hc
    rw [← hjson, ← hsha]
    exact hhistory.intact r (List.mem_of_getLast? hr)
  obtain ⟨revisions, events, history, hrevisions, hevents, hhistory, hlatest, hmanifest⟩ := id hc
  obtain ⟨hsequence, -⟩ := hlatest.sequence hhistory
  have hcurrent : current.eventSequence = history.length := hsequence.trans hhistory.length
  unfold generateCohortFacts
  refine succeeds_bind hi (readCohortManifest_answers hintact) fun _ s₁ hi₁ hs₁ => ?_
  refine succeeds_bind hi₁ (previousCohortScope_answers (hc.grows hs₁)) fun previous s₂ hi₂ hs₂ => ?_
  refine succeeds_bind hi₂ (walkHistory_answers hhistory hcurrent ⟨Nat.zero_le _, rfl⟩ (by omega)
    (hevents.trans (hs₁.trans hs₂).events)) fun w s₃ hi₃ hw => ?_
  obtain ⟨hwalked, hlast⟩ := hw
  have hprevious : w.previousEvent = current.eventSha256 := by
    obtain ⟨e, r, he, hrecord, -⟩ := hlatest
    rw [hwalked.previousEvent, hlast, List.take_length, he, show current.eventSha256 = some (env.digest e.json) from
      congrArg CohortRecord.eventSha256 hrecord]
    rfl
  rw [if_neg (not_not.mpr hprevious)]
  exact answers_pure fun _ => trivial

theorem generateCohortFacts_keeps (hi : Chained env s) (hc : Committed env current s) :
    Commits env (fun _ s' => Committed env current s') (generateCohortFacts env current) s := by
  have hframe := (generateCohortFacts_answers hi hc).keeps.frame (P := Committed env current)
    (fun _ _ h hs => h.grows hs) (fun _ _ h hs => h.grows hs) hc
  exact keeps_mono (fun _ _ h => h.2) hframe

/-! ## Commands -/

theorem sealUpload_leaves (uploadId : String) (chunks revision : Nat) : Leaves (sealUpload uploadId chunks revision) := by
  intro s n s' m h
  cases h
  exact ⟨rfl, rfl, rfl⟩

theorem assertChanged_leaves : Leaves assertChanged := by
  intro s n s' m h
  obtain ⟨-, rfl⟩ := assertChanged_ok h
  exact ⟨rfl, rfl, rfl⟩

theorem assertUnchanged_leaves (row : CohortRow) : Leaves (assertUnchanged row) := by
  intro s n s' m h
  unfold assertUnchanged at h
  split at h
  · cases h
    exact ⟨rfl, rfl, rfl⟩
  · cases h

theorem insertChangelog_leaves (row : ChangelogRow) : Leaves (insertChangelog row) := by
  intro s n s' m h
  unfold insertChangelog at h
  obtain ⟨x, -, hok⟩ := Fallible.bind_ok.mp h
  cases hok
  exact ⟨rfl, rfl, rfl⟩

theorem insertReview_leaves (row : ReviewRow) : Leaves (insertReview row) := by
  intro s n s' m h
  unfold insertReview at h
  obtain ⟨x, -, hok⟩ := Fallible.bind_ok.mp h
  cases hok
  exact ⟨rfl, rfl, rfl⟩

theorem leavesBatch_keeps {α : Type} {statements : List (Sql.Statement CohortDb)}
    (hstatements : ∀ statement ∈ statements, Leaves statement) {Q : α → CohortDb → Prop}
    {f : List Nat → Prog CohortDb PolicyError α} (hf : ∀ ns s, Chained env s → Commits env Q (f ns) s) :
    Commits env Q (runBatch statements >>= f) s := by
  refine Sql.keeps_run_bind fun s₁ s₂ ns hi₁ _ hrun _ => ?_
  have hsame : SameHistory s₁ s₂ := Sql.runAll_all hstatements hrun
  exact ⟨hi₁.same hsame, hsame.grows, hf ns _ (hi₁.same hsame)⟩

theorem assertPrior_keeps (found : Option CohortRow) (prior : Except PolicyError Unit) :
    Commits env (fun _ s' => Grows s s') (assertPrior found prior) s := by
  unfold assertPrior
  split
  · exact keeps_ofExcept fun _ _ _ _ hs => hs
  · exact fun _ _ hs => hs

theorem proposeCohort_keeps (p : Proposal) (hi : Chained env s) :
    Commits env (fun _ _ => True) (proposeCohort env p) s := by
  unfold proposeCohort
  split
  · trivial
  refine keeps_ofExcept_bind fun manifest _ => ?_
  refine keeps_bind hi findCohort_keeps fun found s₁ hi₁ hfound => ?_
  refine keeps_bind hi₁ (assertPrior_keeps found p.prior) fun _ s₂ hi₂ hs₂ => ?_
  split
  · trivial
  dsimp only
  split
  · exact commits_pure _
  split
  · trivial
  refine keeps_ofExcept_bind fun e he => ?_
  refine scopeBatch_keeps [] (fun row hrow => (hfound row hrow).grows hs₂) he (by simp) fun _ s₃ hi₃ => ?_
  exact keeps_mono (fun _ _ _ => trivial) getCohort_keeps

theorem scopeUpload_keeps (p : Sealing) : Commits env (fun _ _ => True) (scopeUpload p) s := by
  unfold scopeUpload
  refine keeps_ofExcept_bind fun reviewer _ => keeps_read_bind fun s₁ _ _ => ?_
  split
  · trivial
  · split
    · trivial
    · exact commits_pure _

theorem sealCohortScope_keeps (p : Sealing) (hi : Chained env s) :
    Commits env (fun _ _ => True) (sealCohortScope env p) s := by
  unfold sealCohortScope
  refine keeps_bind hi (scopeUpload_keeps p) fun upload s₁ hi₁ _ => ?_
  refine keeps_ofExcept_bind fun clean _ => ?_
  split
  · exact fun s₂ hi₂ _ _ => ⟨hi₂, refl_of Grows s₂, commits_pure _⟩
  split
  · trivial
  refine keeps_bind hi₁ findCohort_keeps fun found s₂ hi₂ hfound => ?_
  split
  · trivial
  · next hcurrent =>
    refine keeps_ofExcept_bind fun manifest _ => ?_
    refine keeps_bind hi₂ (assertPrior_keeps found p.prior) fun _ s₃ hi₃ hs₃ => ?_
    dsimp only
    split
    · trivial
    split
    · refine leavesBatch_keeps ?_ fun _ _ _ => commits_pure _
      simp [assertAdmitted_leaves, assertUnchanged_leaves, sealUpload_leaves, assertChanged_leaves]
    · refine keeps_ofExcept_bind fun e he => ?_
      have hexpected : upload.expectedRevision = found.map (·.currentRevision) := by
        by_contra hne
        exact hcurrent (.inl fun h => hne h.symm)
      rw [hexpected] at he ⊢
      refine scopeBatch_keeps [assertAdmitted, sealUpload p.uploadId p.chunks _, assertChanged]
        (fun row hrow => (hfound row hrow).grows hs₃) he ?_ fun _ _ _ => commits_pure _
      simp [assertAdmitted_leaves, sealUpload_leaves, assertChanged_leaves]

theorem findRechecked_keeps (input : PhaseInput) (condition : CohortCondition) (gate : Gate) :
    Commits env (fun _ s' => Grows s s') (findRechecked env input condition gate) s := by
  unfold findRechecked
  split
  · refine keeps_read_bind fun s₁ _ hs₁ => ?_
    split
    · exact fun _ _ hs => hs₁.trans hs
    · refine keeps_ofExcept_bind fun event _ => ?_
      exact fun _ _ hs => hs₁.trans hs
  · exact fun _ _ hs => hs

theorem changeCohortPhase_keeps (input : PhaseInput) (hi : Chained env s) :
    Commits env (fun _ _ => True) (changeCohortPhase env input) s := by
  unfold changeCohortPhase
  refine keeps_bind hi getCohort_keeps fun current s₁ hi₁ hc => ?_
  refine keeps_ofExcept_bind fun reviewer _ => keeps_ofExcept_bind fun reason _ => ?_
  refine keeps_read_bind fun s₂ hi₂ hs₂ => ?_
  split
  · exact commits_pure _
  split
  · trivial
  split
  · trivial
  refine keeps_ofExcept_bind fun gate _ => keeps_ofExcept_bind fun outcome _ => ?_
  refine keeps_bind hi₂ (findRechecked_keeps input outcome.2 gate) fun rechecked s₃ hi₃ hs₃ => ?_
  split
  · exact commits_pure _
  · refine keeps_ofExcept_bind fun e he => ?_
    exact eventBatch_keeps [assertAdmitted] (hc.grows (hs₂.trans hs₃)) he (by simp [assertAdmitted_leaves])
      fun _ _ _ => commits_pure _

theorem saveCohortChangelog_keeps (input : ChangelogInput) (hi : Chained env s) :
    Commits env (fun _ _ => True) (saveCohortChangelog env input) s := by
  unfold saveCohortChangelog
  refine keeps_bind hi getCohort_keeps fun current s₁ hi₁ hc => ?_
  refine keeps_ofExcept_bind fun reviewer _ => ?_
  split
  · trivial
  split
  · trivial
  refine keeps_bind hi₁ (generateCohortFacts_keeps hi₁ hc) fun facts s₂ hi₂ hc₂ => ?_
  dsimp only
  split
  · trivial
  refine keeps_read_bind fun s₃ hi₃ hs₃ => ?_
  split
  · exact commits_pure _
  · refine keeps_ofExcept_bind fun e he => ?_
    exact eventBatch_keeps [insertChangelog _] (hc₂.grows hs₃) he (by simp [insertChangelog_leaves])
      fun _ _ _ => commits_pure _

theorem approveCohortChangelog_keeps (input : ApprovalInput) (hi : Chained env s) :
    Commits env (fun _ _ => True) (approveCohortChangelog env input) s := by
  unfold approveCohortChangelog
  refine keeps_bind hi getCohort_keeps fun current s₁ hi₁ hc => ?_
  refine keeps_ofExcept_bind fun reviewer _ => keeps_ofExcept_bind fun clean _ => ?_
  split
  · trivial
  refine keeps_read_bind fun s₂ hi₂ hs₂ => ?_
  split
  · trivial
  split
  · trivial
  refine keeps_bind hi₂ (generateCohortFacts_keeps hi₂ (hc.grows hs₂)) fun facts s₃ hi₃ hc₃ => ?_
  split
  · trivial
  split
  · trivial
  refine keeps_read_bind fun s₄ hi₄ hs₄ => ?_
  split
  · exact commits_pure _
  · refine keeps_ofExcept_bind fun e he => ?_
    exact eventBatch_keeps [insertReview _] (hc₃.grows hs₄) he (by simp [insertReview_leaves])
      fun _ _ _ => commits_pure _

end

/-! ## Runs -/

inductive Command where
  | propose (p : Proposal)
  | sealScope (p : Sealing)
  | change (input : PhaseInput)
  | save (input : ChangelogInput)
  | approve (input : ApprovalInput)
  | facts

inductive Answer where
  | cohort (row : CohortRow)
  | scope (scope : Option SealedScope)
  | phase (answer : PhaseAnswer)
  | changelog (digest : String)
  | facts (facts : Except PolicyError (CohortFacts × Option (List Char)))

def Command.run (env : CohortEnv) : Command → Prog CohortDb PolicyError Answer
  | propose p => do
    let row ← proposeCohort env p
    pure (.cohort row)
  | sealScope p => do
    let scope ← sealCohortScope env p
    pure (.scope scope)
  | change input => do
    let answer ← changeCohortPhase env input
    pure (.phase answer)
  | save input => do
    let digest ← saveCohortChangelog env input
    pure (.changelog digest)
  | approve input => do
    let digest ← approveCohortChangelog env input
    pure (.changelog digest)
  | facts => do
    let current ← getCohort env
    let facts ← (generateCohortFacts env current).attempt
    pure (.facts facts)

/-- The facts, if they were asked for, were generated. -/
def Generated (answer : Answer) (_ : CohortDb) : Prop :=
  ∀ facts, answer = .facts facts → ∃ generated, facts = .ok generated

theorem answered_keeps {env : CohortEnv} {α : Type} {p : Prog CohortDb PolicyError α} {f : α → Answer}
    (hf : ∀ a facts, f a ≠ .facts facts) {s : CohortDb} (hi : Chained env s) (hp : Commits env (fun _ _ => True) p s) :
    Commits env Generated (p >>= fun a => pure (f a)) s :=
  keeps_bind hi hp fun a _ _ _ _ _ _ facts hfacts => absurd hfacts (hf a facts)

theorem Command.run_keeps (env : CohortEnv) (command : Command) {s : CohortDb} (hi : Chained env s) :
    Commits env Generated (command.run env) s := by
  cases command with
  | propose p => exact answered_keeps (f := .cohort) (fun _ _ h => nomatch h) hi (proposeCohort_keeps p hi)
  | sealScope p => exact answered_keeps (f := .scope) (fun _ _ h => nomatch h) hi (sealCohortScope_keeps p hi)
  | change input => exact answered_keeps (f := .phase) (fun _ _ h => nomatch h) hi (changeCohortPhase_keeps input hi)
  | save input => exact answered_keeps (f := .changelog) (fun _ _ h => nomatch h) hi (saveCohortChangelog_keeps input hi)
  | approve input => exact answered_keeps (f := .changelog) (fun _ _ h => nomatch h) hi (approveCohortChangelog_keeps input hi)
  | facts =>
    refine keeps_bind hi getCohort_keeps fun current s₁ hi₁ hc => ?_
    refine keeps_bind hi₁ (generateCohortFacts_answers hi₁ hc).attempt fun facts s₂ _ hfacts => ?_
    intro s₃ _ _ facts' heq
    cases heq
    obtain ⟨generated, hgenerated, -⟩ := hfacts
    exact ⟨generated, hgenerated⟩

def Commands (env : CohortEnv) (_ : Nat) (p : Prog CohortDb PolicyError Answer) : Prop :=
  ∃ command : Command, p = command.run env

/-- What happens beside the commands leaves the cohort, its revisions and its events. -/
def Happens (s s' : CohortDb) : Prop := SameHistory s s'

theorem commands_agree (env : CohortEnv) :
    Pool.Agree (Commands env) Happens (Chained env) (fun _ _ => True) (fun _ => Grows) (fun _ => Grows) Generated where
  refl _ := inferInstance
  trans _ := inferInstance
  start := by
    rintro n p s ⟨command, rfl⟩ hi
    exact command.run_keeps env hi
  others _ _ _ h := h
  outside h hi := ⟨hi.same h, fun _ => h.grows⟩

/-- The cohort was not proposed yet. -/
structure Starts (s : CohortDb) : Prop where
  cohort : s.cohort = none
  revisions : s.revisions = []
  events : s.events = []

theorem Starts.chained {env : CohortEnv} {s : CohortDb} (h : Starts s) : Chained env s := by
  refine ⟨[], ⟨⟨?_, rfl, by simp, by simp, .nil, ?_, ?_⟩, fun _ => ⟨h.revisions, rfl⟩, fun record hrecord => ?_⟩⟩
  · rw [h.events]
    rfl
  · rw [h.revisions]
    rfl
  · rw [h.revisions]
    simp
  · rw [h.cohort] at hrecord
    cases hrecord

/-- The facts that programs of the pool asked for were generated. -/
def NoneRefused (pool : Pool CohortDb PolicyError Answer) : Prop :=
  ∀ (n : Nat) (answer : Answer), pool.tasks[n]? = some (.done answer) → Generated answer pool.state

/-- In every run of commands the events are one chain that ends in the cohort's row, and
no facts that were asked for are refused. -/
theorem events_chained (env : CohortEnv) (s : CohortDb) (hstart : Starts s) (pool : Pool CohortDb PolicyError Answer)
    (hrun : Pool.Steps (Commands env) Happens ⟨s, []⟩ pool) :
    Chained env pool.state ∧ NoneRefused pool := by
  have hstarted : (⟨s, []⟩ : Pool CohortDb PolicyError Answer).Good (Chained env) (fun _ _ => True) (fun _ => Grows)
      (fun _ => Grows) Generated := Pool.good_start hstart.chained
  have hgood := hstarted.steps (commands_agree env) hrun
  refine ⟨hgood.1, fun n answer htask => ?_⟩
  have hdone : Commits env Generated (Prog.done answer) pool.state := hgood.2 n _ htask
  exact hdone pool.state hgood.1 (refl_of Grows pool.state)

def sampleEnv : CohortEnv := ⟨fun _ => Hash.Digest.zero, "sample", fun _ _ _ => []⟩

def sampleStart : CohortDb := ⟨none, [], [], [], [], [], true⟩

def sampleProposal : Proposal := ⟨.ok (jsObject []), "github:1", .ok (), none, units "first scope", 0⟩

/-- A proposal, and facts that are asked for while it is committed. -/
def sampleRun : Pool CohortDb PolicyError Answer :=
  ((((⟨sampleStart, []⟩ : Pool CohortDb PolicyError Answer).starting (Command.run sampleEnv (.propose sampleProposal))).turns
    [0, 0]).starting (Command.run sampleEnv .facts)).turns [1, 1, 1, 1]

theorem events_chained_sample : Chained sampleEnv sampleRun.state ∧ NoneRefused sampleRun := by
  refine events_chained sampleEnv sampleStart ⟨rfl, rfl, rfl⟩ sampleRun ?_
  have hnone : Pool.Steps (Commands sampleEnv) Happens ⟨sampleStart, []⟩ ⟨sampleStart, []⟩ := .refl
  have hproposed := (hnone.starting ⟨.propose sampleProposal, rfl⟩).turns [0, 0]
  exact (hproposed.starting ⟨.facts, rfl⟩).turns [1, 1, 1, 1]

end Omapkg.Server.Cohort
