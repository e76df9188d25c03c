import Mathlib.Data.List.Chain
import Omapkg.Server.Cohorts
/-!
# The history of a cohort

Every event is committed with the row it was made from, so the events form one
chain, whoever proposes, seals, checks and reviews in between; and a row that
was read has a history which the generated facts take as it is.
-/

namespace Omapkg.Server.Cohort

open Utf Json Prog

/-! ## Reading an event back -/

/-- What a reader has of the text of an object literal. -/
theorem parseJson_jsObject {d : Nat} {ms : List (String × Json JsString)} (hnames : PlainNames ms)
    (hvalues : ∀ m ∈ ms, Shaped d m.2) (hd : d + 1 ≤ jsonDepth) :
    ∃ v, parseJson (canonicalJson (jsObject ms)) = .ok v ∧
      ∀ m ∈ ms, property m.1 v = some ((canonicalValue m.2).map toText) := by
  have hshaped := shaped_jsObject hnames hvalues
  have hparse := parse_print reads_jsQuote (canonicalValue (jsObject ms))
    (le_trans ((depth_canonicalValue _ hshaped.1).trans hshaped.2) hd) stops_nil
  have hdec : String.ofList ∘ (fun s => (toText s).toList) = toText := by
    funext s
    exact String.ofList_toList
  rw [List.append_nil, hdec] at hparse
  refine ⟨(canonicalValue (jsObject ms)).map toText, ?_, fun m hm => ?_⟩
  · rw [parseJson, canonicalJson, hparse]
  · have hkeys : ((ms.map fun m => (units m.1, m.2)).map Prod.fst) = (ms.map Prod.fst).map units := by
      rw [List.map_map, List.map_map]
      rfl
    have hplain : PlainKeys ((ms.map fun m => (units m.1, m.2)).map Prod.fst) := by
      rw [hkeys]
      exact hnames
    rw [jsObject, canonicalValue_obj hplain, Json.map, mapMembers_eq]
    have hperm := (sortKeys_perm (canonicalMembers (ms.map fun m => (units m.1, m.2)))).map
      fun m => (toText m.1, m.2.map toText)
    have hmembers : ((canonicalMembers (ms.map fun m => (units m.1, m.2))).map fun m => (toText m.1, m.2.map toText)) =
        ms.map fun m => (m.1, (canonicalValue m.2).map toText) := by
      rw [canonicalMembers_eq, List.map_map, List.map_map]
      refine List.map_congr_left fun m _ => ?_
      simp only [Function.comp_apply, toText_units]
    rw [hmembers] at hperm
    refine property_of_mem ?_ (hperm.mem_iff.mpr (List.mem_map_of_mem hm))
    rw [(hperm.map Prod.fst).nodup_iff, List.map_map]
    exact List.Nodup.of_map units hnames.1

theorem Evidence.plain (evidence : Evidence) : PlainNames evidence.members := by
  cases evidence with
  | none => exact plainNames_of (by simp [members]) (by simp [members])
  | scope upload => exact plainNames_of (by simp [members]) (by simp [members]; decide)
  | gate blockersSha256 matrixSha256 paged matrix blockers =>
    cases paged <;> exact plainNames_of (by simp [members]) (by simp [members]; decide)
  | changelog changelogSha256 factsSha256 => exact plainNames_of (by simp [members]) (by simp [members]; decide)

theorem Evidence.shaped (evidence : Evidence) : Shaped 1 (jsObject evidence.members) := by
  refine shaped_jsObject evidence.plain fun m hm => ?_
  cases evidence <;> simp only [members, List.mem_cons, List.not_mem_nil, or_false] at hm
  case scope upload => exact hm ▸ ⟨trivial, Nat.le_refl _⟩
  case gate => rcases hm with rfl | rfl | rfl | rfl <;> exact ⟨trivial, Nat.le_refl _⟩
  case changelog => rcases hm with rfl | rfl <;> exact ⟨trivial, Nat.le_refl _⟩

theorem CohortEvent.plain (e : CohortEvent) : PlainNames e.members :=
  plainNames_of (by simp [members]) (by simp [members]; decide)

theorem CohortEvent.shaped (e : CohortEvent) : ∀ m ∈ e.members, Shaped 1 m.2 := by
  simp [members, shaped_orNull, e.evidence.shaped]

theorem isText_text (s : String) : isText s (some ((canonicalValue (jsText s)).map toText)) = true := by
  simp [jsText, canonicalValue, Json.map, isText, toText_units]

theorem isNumber_nat (n : Nat) : isNumber n (some ((canonicalValue (jsNat n)).map toText)) = true := by
  simp [jsNat, canonicalValue, Json.map, isNumber]

theorem isTextOrNull_orNull (o : Option String) :
    isTextOrNull o (some ((canonicalValue (orNull jsText o)).map toText)) = true := by
  cases o with
  | none => rfl
  | some s => exact isText_text s

/-- The properties that are looked at are those of the event. -/
theorem parseJson_event (e : CohortEvent) :
    ∃ v, parseJson e.json = .ok v ∧ isNumber e.sequence (property "sequence" v) = true ∧
      isText e.cohortId (property "cohortId" v) = true ∧
      isTextOrNull e.previousEventSha256 (property "previousEventSha256" v) = true := by
  obtain ⟨v, hparse, hmembers⟩ := parseJson_jsObject e.plain e.shaped (by decide)
  refine ⟨v, hparse, ?_, ?_, ?_⟩
  · rw [hmembers ("sequence", jsNat e.sequence) (by simp [CohortEvent.members])]
    exact isNumber_nat _
  · rw [hmembers ("cohortId", jsText e.cohortId) (by simp [CohortEvent.members])]
    exact isText_text _
  · rw [hmembers ("previousEventSha256", orNull jsText e.previousEventSha256) (by simp [CohortEvent.members])]
    exact isTextOrNull_orNull _

/-! ## Chains -/

/-- An event follows the one before it, or none. -/
structure Link (env : CohortEnv) (prior : Option CohortEvent) (e : CohortEvent) : Prop where
  previous : e.previousEventSha256 = prior.map fun p => env.digest p.json
  priorManifest : e.priorManifestSha256 = prior.map (·.manifestSha256)
  fromPhase : e.fromPhase = prior.map (·.phase)

/-- What is kept of an event, but for its command. -/
def EventRow.kept (row : EventRow) : Nat × Nat × List Char × String :=
  (row.sequence, row.revision, row.eventJson, row.eventSha256)

def CohortEvent.kept (env : CohortEnv) (e : CohortEvent) : Nat × Nat × List Char × String :=
  (e.sequence, e.revision, e.json, env.digest e.json)

/-- The revisions are numbered and intact, and the rows of events are those of one linear chain. -/
structure History (env : CohortEnv) (revisions : List RevisionRow) (events : List EventRow) (history : List CohortEvent) :
    Prop where
  rows : events.map (·.kept) = history.map (·.kept env)
  sequences : history.map (·.sequence) = List.range' 1 history.length
  cohort : ∀ e ∈ history, e.cohortId = env.cohortId
  first : ∀ e ∈ history.head?, Link env none e
  linked : history.IsChain fun p e => Link env (some p) e
  numbered : revisions.map (·.revision) = List.range' 1 revisions.length
  intact : ∀ r ∈ revisions, env.digest r.manifestJson = r.manifestSha256

/-- The row of the cohort is that of its last event, whose manifest is that of the last revision. -/
def Latest (env : CohortEnv) (record : CohortRecord) (revisions : List RevisionRow) (history : List CohortEvent) : Prop :=
  ∃ e r, history.getLast? = some e ∧ record = e.record env ∧
    revisions.getLast? = some r ∧ r.revision = e.revision ∧ r.manifestSha256 = e.manifestSha256

/-- The history of a cohort, if it was proposed. -/
structure Sound (env : CohortEnv) (s : CohortDb) (history : List CohortEvent) : Prop extends
    History env s.revisions s.events history where
  absent : s.cohort = none → s.revisions = [] ∧ history = []
  latest : ∀ record, s.cohort = some record → Latest env record s.revisions history

def Chained (env : CohortEnv) (s : CohortDb) : Prop := ∃ history, Sound env s history

section
variable {env : CohortEnv} {revisions : List RevisionRow} {events : List EventRow} {history : List CohortEvent}

theorem History.length (h : History env revisions events history) : events.length = history.length := by
  have hlen := congrArg List.length h.rows
  rwa [List.length_map, List.length_map] at hlen

theorem History.sequence (h : History env revisions events history) {i : Nat} {e : CohortEvent}
    (hi : history[i]? = some e) : e.sequence = i + 1 := by
  have hlt : i < history.length := (List.getElem?_eq_some_iff.mp hi).1
  have hat := congrArg (·[i]?) h.sequences
  simp only [List.getElem?_map, hi, Option.map_some, List.getElem?_range' hlt, Option.some.injEq] at hat
  omega

theorem History.lastSequence (h : History env revisions events history) {e : CohortEvent}
    (he : history.getLast? = some e) : e.sequence = history.length := by
  rw [List.getLast?_eq_getElem?] at he
  have hlt : history.length - 1 < history.length := (List.getElem?_eq_some_iff.mp he).1
  have hseq := h.sequence he
  omega

theorem numbered_last {r : RevisionRow} (h : revisions.map (·.revision) = List.range' 1 revisions.length)
    (hr : revisions.getLast? = some r) : r.revision = revisions.length := by
  rw [List.getLast?_eq_getElem?] at hr
  have hlt : revisions.length - 1 < revisions.length := (List.getElem?_eq_some_iff.mp hr).1
  have hat := congrArg (·[revisions.length - 1]?) h
  simp only [List.getElem?_map, hr, Option.map_some, List.getElem?_range' hlt, Option.some.injEq] at hat
  omega

/-- Revisions have different numbers, so a number finds its revision. -/
theorem find_revision {r : RevisionRow} (h : revisions.map (·.revision) = List.range' 1 revisions.length)
    (hr : r ∈ revisions) : revisions.find? (·.revision = r.revision) = some r := by
  have hnodup : (revisions.map (·.revision)).Nodup := by
    rw [h]
    exact List.nodup_range'
  cases hfound : revisions.find? (·.revision = r.revision) with
  | none => simpa using List.find?_eq_none.mp hfound r hr
  | some r' =>
    have hsame : r'.revision = r.revision := by simpa using List.find?_some hfound
    rw [List.inj_on_of_nodup_map hnodup (List.mem_of_find?_eq_some hfound) hr hsame]

theorem Latest.sequence {record : CohortRecord} (hl : Latest env record revisions history)
    (h : History env revisions events history) :
    record.eventSequence = events.length ∧ record.currentRevision = revisions.length := by
  obtain ⟨e, r, he, rfl, hr, hrevision, -⟩ := hl
  exact ⟨(h.lastSequence he).trans h.length.symm, hrevision.symm.trans (numbered_last h.numbered hr)⟩

/-- One more event, with the revision that came with it. -/
theorem History.append (h : History env revisions events history) {e : CohortEvent} {command : String}
    {added : List RevisionRow} (hlink : Link env history.getLast? e) (hsequence : e.sequence = history.length + 1)
    (hcohort : e.cohortId = env.cohortId)
    (hadded : (revisions ++ added).map (·.revision) = List.range' 1 (revisions ++ added).length)
    (hintact : ∀ r ∈ added, env.digest r.manifestJson = r.manifestSha256) :
    History env (revisions ++ added) (events ++ [e.row env command]) (history ++ [e]) where
  rows := by
    rw [List.map_append, List.map_append, h.rows]
    rfl
  sequences := by
    rw [List.map_append, h.sequences, List.length_append, List.length_singleton, List.range'_concat]
    simp [hsequence, Nat.add_comm]
  cohort e' he' := by
    rcases List.mem_append.mp he' with hold | hnew
    · exact h.cohort e' hold
    · exact List.mem_singleton.mp hnew ▸ hcohort
  first e' he' := by
    cases history with
    | nil =>
      obtain rfl : e = e' := by simpa using he'
      exact hlink
    | cons e₀ rest => exact h.first e' he'
  linked := by
    rw [List.isChain_append]
    refine ⟨h.linked, List.isChain_singleton _, fun p hp e' he' => ?_⟩
    obtain rfl : e = e' := by simpa using he'
    rw [Option.mem_def.mp hp] at hlink
    exact hlink
  numbered := hadded
  intact r hr := by
    rcases List.mem_append.mp hr with hold | hnew
    · exact h.intact r hold
    · exact hintact r hnew

theorem History.link (h : History env revisions events history) {i : Nat} {e : CohortEvent}
    (hi : history[i]? = some e) : Link env (history.take i).getLast? e := by
  cases i with
  | zero => exact h.first e (by rwa [← List.head?_eq_getElem?] at hi)
  | succ i =>
    obtain ⟨hlt, rfl⟩ := List.getElem?_eq_some_iff.mp hi
    have hlast : (history.take (i + 1)).getLast? = some history[i] := by
      rw [List.getLast?_take, if_neg (Nat.succ_ne_zero i), Nat.add_sub_cancel, List.getElem?_eq_getElem (by omega)]
      rfl
    rw [hlast]
    exact List.isChain_iff_getElem.mp h.linked i hlt

/-- A row of the table is that of the event of its place. -/
theorem History.row (h : History env revisions events history) {i : Nat} {e : CohortEvent}
    (hi : history[i]? = some e) : ∃ row, events[i]? = some row ∧ row.kept = e.kept env := by
  have hat := congrArg (·[i]?) h.rows
  simp only [List.getElem?_map, hi, Option.map_some] at hat
  exact Option.map_eq_some_iff.mp hat

theorem History.rowSequence (h : History env revisions events history) {i : Nat} {row : EventRow}
    (hi : events[i]? = some row) : row.sequence = i + 1 := by
  have hlt : i < history.length := h.length ▸ (List.getElem?_eq_some_iff.mp hi).1
  obtain ⟨row', hrow', hkept⟩ := h.row (List.getElem?_eq_getElem hlt)
  obtain rfl : row = row' := Option.some.inj (hi.symm.trans hrow')
  exact (congrArg Prod.fst hkept).trans (h.sequence (List.getElem?_eq_getElem hlt))

end

/-! ## What everyone keeps -/

/-- Revisions and events are only added. -/
structure Grows (s s' : CohortDb) : Prop where
  revisions : s.revisions <+: s'.revisions
  events : s.events <+: s'.events

instance : Std.Refl Grows := ⟨fun _ => ⟨List.prefix_refl _, List.prefix_refl _⟩⟩

theorem Grows.trans {s s' s'' : CohortDb} (h : Grows s s') (h' : Grows s' s'') : Grows s s'' :=
  ⟨h.revisions.trans h'.revisions, h.events.trans h'.events⟩

instance : IsTrans CohortDb Grows := ⟨fun _ _ _ => Grows.trans⟩

/-- The last revision has this manifest. -/
def HasManifest (current : CohortRow) (revisions : List RevisionRow) : Prop :=
  ∃ r, revisions.getLast? = some r ∧ r.manifestJson = current.manifestJson ∧ r.manifestSha256 = current.manifestSha256

/-- The row is one that the cohort had. -/
def Committed (env : CohortEnv) (current : CohortRow) (s : CohortDb) : Prop :=
  ∃ revisions events history, revisions <+: s.revisions ∧ events <+: s.events ∧
    History env revisions events history ∧ Latest env current.toCohortRecord revisions history ∧
    HasManifest current revisions

/-- Two states with the same history. -/
structure SameHistory (s s' : CohortDb) : Prop where
  cohort : s'.cohort = s.cohort
  revisions : s'.revisions = s.revisions
  events : s'.events = s.events

section
variable {env : CohortEnv} {current : CohortRow} {s s' s'' : CohortDb}

theorem Committed.grows (h : Committed env current s) (hs : Grows s s') : Committed env current s' := by
  obtain ⟨revisions, events, history, hrevisions, hevents, hrest⟩ := h
  exact ⟨revisions, events, history, hrevisions.trans hs.revisions, hevents.trans hs.events, hrest⟩

theorem SameHistory.grows (h : SameHistory s s') : Grows s s' :=
  ⟨h.revisions ▸ List.prefix_refl _, h.events ▸ List.prefix_refl _⟩

theorem SameHistory.trans (h : SameHistory s s') (h' : SameHistory s' s'') : SameHistory s s'' :=
  ⟨h'.cohort.trans h.cohort, h'.revisions.trans h.revisions, h'.events.trans h.events⟩

instance : Std.Refl SameHistory := ⟨fun _ => ⟨rfl, rfl, rfl⟩⟩

instance : IsTrans CohortDb SameHistory := ⟨fun _ _ _ => SameHistory.trans⟩

theorem Chained.same (h : Chained env s) (hs : SameHistory s s') : Chained env s' := by
  obtain ⟨history, hsound⟩ := h
  refine ⟨history, ⟨hs.revisions ▸ hs.events ▸ hsound.toHistory, ?_, ?_⟩⟩
  · rw [hs.cohort, hs.revisions]
    exact hsound.absent
  · rw [hs.cohort, hs.revisions]
    exact hsound.latest

/-- What is read of the row and its revision was committed. -/
theorem joined_committed (h : Chained env s) (hj : joined s = some current) : Committed env current s := by
  obtain ⟨history, hsound⟩ := h
  unfold joined at hj
  obtain ⟨record, hrecord, hj⟩ := Option.bind_eq_some_iff.mp hj
  obtain ⟨r, hr, rfl⟩ := Option.map_eq_some_iff.mp hj
  have hlatest := hsound.latest record hrecord
  obtain ⟨e, last, he, rfl, hlast, hrevision, -⟩ := hlatest
  have hfound := find_revision hsound.numbered (List.mem_of_getLast? hlast)
  obtain rfl : last = r := by
    rw [hrevision] at hfound
    exact Option.some.inj (hfound.symm.trans hr)
  exact ⟨_, _, history, List.prefix_refl _, List.prefix_refl _, hsound.toHistory, hsound.latest _ hrecord,
    last, hlast, rfl, rfl⟩

/-- As long as the row is as it was read, there is nothing after its last event. -/
theorem Committed.unchanged (h : Committed env current s) (hs : Chained env s) {record : CohortRecord}
    (hrecord : s.cohort = some record) (hrevision : record.currentRevision = current.currentRevision)
    (hsequence : record.eventSequence = current.eventSequence) :
    ∃ history, History env s.revisions s.events history ∧ Latest env current.toCohortRecord s.revisions history ∧
      HasManifest current s.revisions := by
  obtain ⟨revisions, events, history, hrevisions, hevents, hhistory, hlatest, hmanifest⟩ := h
  obtain ⟨now, hsound⟩ := hs
  obtain ⟨hlength, hcount⟩ := (hsound.latest record hrecord).sequence hsound.toHistory
  obtain ⟨hlength', hcount'⟩ := hlatest.sequence hhistory
  have hsameRevisions : revisions = s.revisions := hrevisions.eq_of_length (by omega)
  have hsameEvents : events = s.events := hevents.eq_of_length (by omega)
  subst hsameRevisions hsameEvents
  exact ⟨history, hhistory, hlatest, hmanifest⟩

end

/-! ## Batches -/

/-- The event and the revision it comes with. -/
inductive Adds (env : CohortEnv) (current : CohortRow) : Option (Nat × String) → List RevisionRow → Prop where
  | none : Adds env current none []
  | revision (r : RevisionRow) : r.revision = current.currentRevision + 1 → env.digest r.manifestJson = r.manifestSha256 →
      Adds env current (some (r.revision, r.manifestSha256)) [r]

/-- A batch made the event the last one. -/
structure Wrote (env : CohortEnv) (e : CohortEvent) (command : String) (added : List RevisionRow) (s s' : CohortDb) :
    Prop where
  cohort : s'.cohort = some (e.record env)
  revisions : s'.revisions = s.revisions ++ added
  events : s'.events = s.events ++ [e.row env command]

/-- The statement leaves the history. -/
def Leaves (statement : Sql.Statement CohortDb) : Prop :=
  ∀ s n s' m, statement s n = .ok (s', m) → SameHistory s s'

section
variable {env : CohortEnv} {current : CohortRow} {e : CohortEvent} {command actor : String} {timestamp : Nat}
  {input : CohortEventInput} {next : Option (Nat × String)} {added : List RevisionRow} {s s' : CohortDb}

theorem cohortEvent_ok (h : cohortEvent env current actor timestamp input next = .ok e) :
    e.cohortId = env.cohortId ∧ e.revision = (next.map (·.1)).getD current.currentRevision ∧
      e.sequence = current.eventSequence + 1 ∧ e.previousEventSha256 = current.eventSha256 ∧
      e.priorManifestSha256 = (if current.eventSequence ≠ 0 then some current.manifestSha256 else none) ∧
      e.manifestSha256 = (next.map (·.2)).getD current.manifestSha256 ∧
      e.fromPhase = (if current.eventSequence ≠ 0 then some current.phase else none) := by
  obtain ⟨cause, -, hok⟩ := Fallible.bind_ok.mp h
  cases hok
  exact ⟨rfl, rfl, rfl, rfl, rfl, rfl, rfl⟩

/-- The event of a row links to the row's last event. -/
theorem cohortEvent_link {history : List CohortEvent} {events : List EventRow} {revisions : List RevisionRow}
    (h : cohortEvent env current actor timestamp input next = .ok e) (hhistory : History env revisions events history)
    (hlatest : Latest env current.toCohortRecord revisions history) (hmanifest : HasManifest current revisions) :
    Link env history.getLast? e ∧ e.sequence = history.length + 1 := by
  obtain ⟨-, -, hsequence, hprevious, hprior, -, hfrom⟩ := cohortEvent_ok h
  obtain ⟨last, r, hlast, hrecord, hr, -, hsha⟩ := hlatest
  obtain ⟨r', hr', -, hsha'⟩ := hmanifest
  obtain rfl : r = r' := Option.some.inj (hr.symm.trans hr')
  have hat : current.eventSequence = last.sequence := congrArg CohortRecord.eventSequence hrecord
  have hphase : current.phase = last.phase := congrArg CohortRecord.phase hrecord
  have hevent : current.eventSha256 = some (env.digest last.json) := congrArg CohortRecord.eventSha256 hrecord
  have hlen := hhistory.lastSequence hlast
  have hpos : current.eventSequence ≠ 0 := by
    have hne : history.length ≠ 0 := by
      intro hzero
      rw [List.length_eq_zero_iff.mp hzero] at hlast
      cases hlast
    omega
  rw [hlast]
  refine ⟨⟨hprevious.trans hevent, ?_, ?_⟩, by omega⟩
  · rw [hprior, if_pos hpos, ← hsha', hsha]
    rfl
  · rw [hfrom, if_pos hpos, hphase]
    rfl

/-- An event after the last one. -/
theorem Chained.commit (hs : Chained env s) (hc : Committed env current s)
    (he : cohortEvent env current actor timestamp input next = .ok e) (hadds : Adds env current next added)
    {record : CohortRecord} (hrecord : s.cohort = some record)
    (hrevision : record.currentRevision = current.currentRevision)
    (hsequence : record.eventSequence = current.eventSequence) (hwrote : Wrote env e command added s s') :
    Chained env s' := by
  obtain ⟨history, hhistory, hlatest, hmanifest⟩ := hc.unchanged hs hrecord hrevision hsequence
  obtain ⟨hlink, hnext⟩ := cohortEvent_link he hhistory hlatest hmanifest
  obtain ⟨hcohort, hrev, -, -, -, hmanifestSha, -⟩ := cohortEvent_ok he
  have hcount := (hlatest.sequence hhistory).2
  have hnew : History env (s.revisions ++ added) (s.events ++ [e.row env command]) (history ++ [e]) := by
    refine hhistory.append hlink hnext hcohort ?_ ?_
    · cases hadds with
      | none => simpa using hhistory.numbered
      | revision r hr _ =>
        rw [List.map_append, hhistory.numbered, List.length_append, List.length_singleton, List.range'_concat]
        simp [hr, hcount, Nat.add_comm]
    · cases hadds with
      | none => simp
      | revision r _ hintact => simpa using hintact
  refine ⟨history ++ [e], ⟨hwrote.revisions ▸ hwrote.events ▸ hnew, fun hnone => ?_, fun record' hrecord' => ?_⟩⟩
  · rw [hwrote.cohort] at hnone
    cases hnone
  · rw [hwrote.cohort] at hrecord'
    cases hrecord'
    rw [hwrote.revisions]
    cases hadds with
    | none =>
      obtain ⟨r, hr, -, hsha⟩ := hmanifest
      obtain ⟨last, r', -, hlast, hr', hnumber, -⟩ := hlatest
      obtain rfl : r = r' := Option.some.inj (hr.symm.trans hr')
      refine ⟨e, r, List.getLast?_concat, rfl, by rwa [List.append_nil], ?_, hsha.trans hmanifestSha.symm⟩
      exact hnumber.trans ((congrArg CohortRecord.currentRevision hlast).symm.trans hrev.symm)
    | revision r _ _ =>
      exact ⟨e, r, List.getLast?_concat, rfl, List.getLast?_concat, hrev.symm, hmanifestSha.symm⟩

/-- The first event of a cohort. -/
theorem Chained.create (hs : Chained env s) (habsent : s.cohort = none) {r : RevisionRow}
    (he : cohortEvent env (newCohort r.manifestJson r.manifestSha256) actor timestamp input
      (some (r.revision, r.manifestSha256)) = .ok e)
    (hr : r.revision = 1) (hintact : env.digest r.manifestJson = r.manifestSha256)
    (hwrote : Wrote env e command [r] s s') : Chained env s' := by
  obtain ⟨history, hsound⟩ := hs
  obtain ⟨hrevisions, rfl⟩ := hsound.absent habsent
  obtain ⟨hcohort, hrev, hsequence, hprevious, hprior, hmanifest, hfrom⟩ := cohortEvent_ok he
  have hnew : History env (s.revisions ++ [r]) (s.events ++ [e.row env command]) ([] ++ [e]) := by
    refine hsound.toHistory.append ⟨hprevious, hprior, hfrom⟩ hsequence hcohort ?_ (by simpa using hintact)
    rw [hrevisions]
    simp [hr]
  refine ⟨[e], ⟨hwrote.revisions ▸ hwrote.events ▸ hnew, fun hnone => ?_, fun record hrecord => ?_⟩⟩
  · rw [hwrote.cohort] at hnone
    cases hnone
  · rw [hwrote.cohort] at hrecord
    cases hrecord
    rw [hwrote.revisions]
    exact ⟨e, r, rfl, rfl, List.getLast?_concat, hrev.symm, hmanifest.symm⟩

theorem Wrote.grows (h : Wrote env e command added s s') : Grows s s' :=
  ⟨h.revisions ▸ List.prefix_append _ _, h.events ▸ List.prefix_append _ _⟩

theorem Wrote.of_same {s₁ : CohortDb} (hsame : SameHistory s s₁) (h : Wrote env e command added s₁ s') :
    Wrote env e command added s s' :=
  ⟨h.cohort, hsame.revisions ▸ h.revisions, hsame.events ▸ h.events⟩

theorem insertEvent_ok {row : EventRow} {n m : Nat} (h : insertEvent row s n = .ok (s', m)) :
    s' = { s with events := s.events ++ [row] } := by
  unfold insertEvent at h
  obtain ⟨⟨events, k⟩, hinsert, hok⟩ := Fallible.bind_ok.mp h
  obtain ⟨-, rfl, -⟩ := Sql.insert_ok.mp hinsert
  cases hok
  rfl

theorem insertRevision_ok {row : RevisionRow} {n m : Nat} (h : insertRevision row s n = .ok (s', m)) :
    s' = { s with revisions := s.revisions ++ [row] } := by
  unfold insertRevision at h
  obtain ⟨⟨revisions, k⟩, hinsert, hok⟩ := Fallible.bind_ok.mp h
  obtain ⟨-, rfl, -⟩ := Sql.insert_ok.mp hinsert
  cases hok
  rfl

theorem assertChanged_ok {n m : Nat} (h : assertChanged s n = .ok (s', m)) : n = 1 ∧ s' = s := by
  unfold assertChanged at h
  split at h
  · next hn =>
    cases h
    exact ⟨hn, rfl⟩
  · cases h

theorem assertAdmitted_leaves : Leaves assertAdmitted := by
  intro s n s' m h
  unfold assertAdmitted at h
  split at h
  · cases h
    exact ⟨rfl, rfl, rfl⟩
  · cases h

/-- The statements of an event pass only over the row that it was made from. -/
theorem eventStatements_ok {n : Nat} {ns : List Nat}
    (h : Sql.runAll (eventStatements env current command e) s n = .ok (s', ns)) :
    (∃ record, s.cohort = some record ∧ record.currentRevision = current.currentRevision ∧
      record.eventSequence = current.eventSequence) ∧ Wrote env e command [] s s' := by
  obtain ⟨s₁, n₁, ns₁, hupdate, hrest, rfl⟩ := Sql.runAll_cons_ok.mp h
  obtain ⟨s₂, n₂, ns₂, hassert, hrest', rfl⟩ := Sql.runAll_cons_ok.mp hrest
  obtain ⟨s₃, n₃, ns₃, hinsert, hnil, rfl⟩ := Sql.runAll_cons_ok.mp hrest'
  obtain ⟨rfl, rfl⟩ := Sql.runAll_nil_ok.mp hnil
  obtain ⟨rfl, rfl⟩ := assertChanged_ok hassert
  obtain rfl := insertEvent_ok hinsert
  unfold updateCohort at hupdate
  cases hrecord : s.cohort with
  | none => simp [hrecord] at hupdate
  | some record =>
    simp only [hrecord] at hupdate
    split at hupdate
    · next hsame =>
      cases hupdate
      exact ⟨⟨record, rfl, hsame.1, hsame.2.1⟩, rfl, (List.append_nil _).symm, rfl⟩
    · simp at hupdate

/-- A new scope is the cohort's first, or the row that was read still is its row. -/
theorem scopeStatements_ok {found : Option CohortRow} {base : CohortRow} {r : RevisionRow} {n : Nat} {ns : List Nat}
    (h : Sql.runAll (scopeStatements env found base r e) s n = .ok (s', ns)) :
    ((found = none ∧ s.cohort = none) ∨ ∃ record, s.cohort = some record ∧
      record.currentRevision = base.currentRevision ∧ record.eventSequence = base.eventSequence) ∧
    Wrote env e (scopeCommand env r.revision r.manifestSha256) [r] s s' := by
  have hrevised {s₁ : CohortDb} {n₁ : Nat} {ns₁ : List Nat}
      (h₁ : Sql.runAll ([insertRevision r, assertAdmitted] ++
        eventStatements env base (scopeCommand env r.revision r.manifestSha256) e) s₁ n₁ = .ok (s', ns₁)) :
      (∃ record, s₁.cohort = some record ∧ record.currentRevision = base.currentRevision ∧
        record.eventSequence = base.eventSequence) ∧
      Wrote env e (scopeCommand env r.revision r.manifestSha256) [r] s₁ s' := by
    obtain ⟨s₂, n₂, ns₂, hinsert, hrest, -⟩ := Sql.runAll_cons_ok.mp h₁
    obtain rfl := insertRevision_ok hinsert
    obtain ⟨s₃, n₃, ns₃, hsame, hevent⟩ :=
      Sql.runAll_append (List.forall_mem_singleton.mpr assertAdmitted_leaves) hrest
    obtain ⟨⟨record, hrecord, hcurrent⟩, hwrote⟩ := eventStatements_ok hevent
    have hwrote' := hwrote.of_same hsame
    refine ⟨⟨record, hsame.cohort ▸ hrecord, hcurrent⟩, hwrote'.cohort, ?_, hwrote'.events⟩
    exact hwrote'.revisions.trans (List.append_nil _)
  unfold scopeStatements at h
  cases found with
  | some row =>
    obtain ⟨hrecord, hwrote⟩ := hrevised (by simpa using h)
    exact ⟨.inr hrecord, hwrote⟩
  | none =>
    obtain ⟨s₁, n₁, ns₁, hcreate, hrest, -⟩ := Sql.runAll_cons_ok.mp h
    unfold insertCohort at hcreate
    cases hcohort : s.cohort with
    | some record => simp [hcohort] at hcreate
    | none =>
      simp only [hcohort] at hcreate
      cases hcreate
      obtain ⟨-, hwrote⟩ := hrevised hrest
      exact ⟨.inl ⟨rfl, rfl⟩, hwrote.cohort, hwrote.revisions, hwrote.events⟩

end

end Omapkg.Server.Cohort
