import Mathlib.Data.List.Sort
import Omapkg.Lib.Sql
import Omapkg.Server.AutomaticFactory
import Omapkg.Server.Validate
/-!
# Observed releases

`recordUpstreamRelease` of `src/services/pipeline/release.ts`: a signal that
differs from the checkpoint makes a new request, unless a request of the same
source is open. An archive keeps its URL when its contents change, so what is
open may be the request of an earlier signal.
-/

namespace Omapkg.Server.Upstream

open Utf Prog

open Automatic (RequestStatus upstreamActor)

/-! ## Requests and signals -/

inductive SourceKind where
  | git | archive
  deriving DecidableEq, Repr

/-- What no statement changes of a row of `requests`. -/
structure RequestKey where
  id : String
  name : String
  upstreamUrl : String
  sourceKind : SourceKind
  upstreamRef : Option String
  requestedBy : String
  createdAt : Int
  deriving DecidableEq, Repr

structure RequestRow extends RequestKey where
  status : RequestStatus
  deriving DecidableEq, Repr

/-- The tracked request. -/
structure FactoryRequest where
  id : String
  name : String
  upstreamUrl : String
  sourceKind : SourceKind
  upstreamRef : Option String

structure UpstreamReleaseSignal where
  sourceKind : SourceKind
  version : Option String
  commit : Option String
  signal : String
  upstreamUrl : Option String

/-- What happened to the checkpoint: `release` says that the signal was one of a
new release, and `covered` that a request for it exists. -/
structure CheckpointMove where
  previous : Option String
  signal : String
  release : Bool
  covered : Bool
  deriving DecidableEq, Repr

/-- The requests, the checkpoint of the tracked one (`last_version`), the clock, and
what happened: when each signal was first observed, how the checkpoint moved, and how
often a request older than an archive's signal was found for it. -/
structure UpstreamState where
  clock : Int
  requests : List RequestRow
  checkpoint : Option String
  observed : String → Option Int
  moves : List CheckpointMove
  stale : Nat

/-- `normalizeSourceUrl(…).toString()`, and the error that it throws. -/
abbrev Normalize := String → Except String String

/-! ## Comparing -/

/-- `replace(/^v/i, '').trim() || null`. -/
def comparableVersion (version : Option String) : Option CodeUnits :=
  version.bind fun v =>
    let bare :=
      match v.toList with
      | 'v' :: r | 'V' :: r => String.ofList r
      | _ => v
    if trim (units bare) = [] then none else some (trim (units bare))

/-- Whether the signal is one of a new release, which a request is made for. -/
def shouldCreate (request : FactoryRequest) (signal : UpstreamReleaseSignal) (previous currentVersion : Option String) :
    Bool :=
  let changed := previous.any (· ≠ signal.signal)
  let versionChanged := signal.version.isSome && comparableVersion signal.version ≠ comparableVersion currentVersion
  let firstObservationRelease := previous.isNone && versionChanged
  let knownCommitChanged := signal.commit.isSome && request.upstreamRef.isSome && signal.commit ≠ request.upstreamRef
  (changed || firstObservationRelease || knownCommitChanged) &&
    (signal.sourceKind = .archive || versionChanged || signal.commit.isSome)

/-! ## Looking for requests -/

/-- The request is one of the same source and commit. -/
def sameSource (request : FactoryRequest) (upstreamUrl : String) (signal : UpstreamReleaseSignal) (row : RequestKey) : Bool :=
  row.name = request.name && row.upstreamUrl = upstreamUrl && row.sourceKind = request.sourceKind &&
    row.upstreamRef = signal.commit

/-- The newest of the rows. -/
def newest (rows : List RequestRow) : Option RequestRow :=
  (rows.insertionSort fun a b => a.createdAt ≥ b.createdAt).head?

def findDuplicate (request : FactoryRequest) (upstreamUrl : String) (signal : UpstreamReleaseSignal) (s : UpstreamState) :
    Option RequestRow :=
  newest (s.requests.filter fun row =>
    sameSource request upstreamUrl signal row.toRequestKey && row.status ≠ .built && row.status ≠ .rejected)

def findActive (request : FactoryRequest) (s : UpstreamState) : Option RequestRow :=
  newest (s.requests.filter fun row =>
    row.name = request.name && [RequestStatus.pending, .generating, .review, .queued, .building].contains row.status)

/-- The request is for the signal: of its source and commit and, for an archive, not
older than its first observation. -/
def isFor (request : FactoryRequest) (upstreamUrl : String) (signal : UpstreamReleaseSignal)
    (observed : String → Option Int) (row : RequestKey) : Bool :=
  sameSource request upstreamUrl signal row &&
    (signal.sourceKind ≠ .archive || (observed signal.signal).all (· ≤ row.createdAt))

/-- A duplicate that an earlier signal's request is, for a signal that is a release. -/
def isStale (request : FactoryRequest) (upstreamUrl : String) (signal : UpstreamReleaseSignal) (release : Bool)
    (s : UpstreamState) : Bool :=
  release && (findDuplicate request upstreamUrl signal s).any fun row =>
    !isFor request upstreamUrl signal s.observed row.toRequestKey

/-! ## Recording -/

/-- The signal is observed, for the first time or again. -/
def UpstreamState.observe (s : UpstreamState) (signal : UpstreamReleaseSignal) : UpstreamState :=
  { s with observed := Function.update s.observed signal.signal (some ((s.observed signal.signal).getD s.clock)) }

/-- `now()`, and the signal that is observed then. -/
def observe (signal : UpstreamReleaseSignal) : Prog UpstreamState String Int :=
  transact fun s => (.ok s.clock, s.observe signal)

/-- The lookup of a duplicate. -/
def lookDuplicate (request : FactoryRequest) (upstreamUrl : String) (signal : UpstreamReleaseSignal) (release : Bool) :
    Prog UpstreamState String (Option RequestRow) :=
  transact fun s => (.ok (findDuplicate request upstreamUrl signal s),
    { s with stale := s.stale + if isStale request upstreamUrl signal release s then 1 else 0 })

/-- The name of an open request is unique. -/
def insertRequest (row : RequestRow) : Sql.Statement UpstreamState := fun s _ => do
  let (requests, n) ← Sql.insert
    (fun r => r.id = row.id || (r.name = row.name && r.status ≠ .built && r.status ≠ .rejected && r.status ≠ .failed))
    "UNIQUE constraint failed: requests" row s.requests
  .ok ({ s with requests }, n)

/-- The `INSERT … ON CONFLICT … DO UPDATE` of the checkpoint. -/
def moveCheckpoint (request : FactoryRequest) (upstreamUrl : String) (signal : UpstreamReleaseSignal) (release : Bool) :
    Sql.Statement UpstreamState := fun s _ =>
  .ok ({ s with
    checkpoint := some signal.signal
    moves := s.moves ++ [⟨s.checkpoint, signal.signal, release,
      s.requests.any fun row => isFor request upstreamUrl signal s.observed row.toRequestKey⟩] }, 1)

def runBatch (statements : List (Sql.Statement UpstreamState)) : Prog UpstreamState String (List Nat) :=
  Sql.run statements (·.message)

def newRequest (request : FactoryRequest) (upstreamUrl : String) (signal : UpstreamReleaseSignal) (id : String)
    (checkedAt : Int) : RequestRow :=
  ⟨⟨id, request.name, upstreamUrl, request.sourceKind, signal.commit, upstreamActor, checkedAt⟩, .pending⟩

/-- An automatic request that may be started again. -/
def isRetryable (row : RequestRow) : Bool :=
  row.requestedBy = upstreamActor && [RequestStatus.pending, .generating, .failed].contains row.status

def activeRetry (active : RequestRow) : Option String :=
  if active.requestedBy = upstreamActor ∧ (active.status = .pending ∨ active.status = .generating) then some active.id
  else none

/-- What is done once the requests were looked for; the answer is `pendingRequestId`. -/
def settleRelease (request : FactoryRequest) (upstreamUrl : String) (signal : UpstreamReleaseSignal) (id : String)
    (checkedAt : Int) (release : Bool) (duplicate active : Option RequestRow) :
    Prog UpstreamState String (Option String) :=
  match release, duplicate, active with
  -- kept back until what is active was reviewed
  | true, none, some row => pure (activeRetry row)
  | true, none, none => do
    let _ ← runBatch [insertRequest (newRequest request upstreamUrl signal id checkedAt),
      moveCheckpoint request upstreamUrl signal release]
    pure (some id)
  | _, _, _ => do
    let _ ← runBatch [moveCheckpoint request upstreamUrl signal release]
    pure ((duplicate.filter isRetryable).map (·.id))

def recordUpstreamRelease (normalize : Normalize) (request : FactoryRequest) (signal : UpstreamReleaseSignal)
    (currentVersion : Option String) (id : String) : Prog UpstreamState String (Option String) := do
  let checkedAt ← observe signal
  let previous ← read (·.checkpoint)
  let release := shouldCreate request signal previous currentVersion
  let upstreamUrl ← ofExcept (normalize (signal.upstreamUrl.getD request.upstreamUrl))
  let duplicate ← lookDuplicate request upstreamUrl signal release
  if release = true ∧ duplicate = none then
    let active ← read (findActive request)
    settleRelease request upstreamUrl signal id checkedAt release duplicate active
  else settleRelease request upstreamUrl signal id checkedAt release duplicate none

/-! ## What recording keeps -/

/-- Signals were observed in the past, and unless a request of an earlier signal was
found, every move to a new release is covered. -/
structure Kept (s : UpstreamState) : Prop where
  observed : ∀ signal t, s.observed signal = some t → t ≤ s.clock
  covered : s.stale = 0 → ∀ m ∈ s.moves, m.release = true → m.covered = true

/-- What anyone may change: requests stay, and a signal is first observed once. -/
structure Grows (s s' : UpstreamState) : Prop where
  clock : s.clock ≤ s'.clock
  observed : ∀ signal t, s.observed signal = some t → s'.observed signal = some t
  keys : ∀ row ∈ s.requests, ∃ row' ∈ s'.requests, row'.toRequestKey = row.toRequestKey
  stale : s.stale ≤ s'.stale

instance : Std.Refl Grows := ⟨fun _ => ⟨Int.le_refl _, fun _ _ h => h, fun row h => ⟨row, h, rfl⟩, Nat.le_refl _⟩⟩

theorem Grows.trans {s s' s'' : UpstreamState} (h : Grows s s') (h' : Grows s' s'') : Grows s s'' where
  clock := Int.le_trans h.clock h'.clock
  observed signal t ht := h'.observed signal t (h.observed signal t ht)
  keys row hrow := by
    obtain ⟨row', hrow', hkey⟩ := h.keys row hrow
    obtain ⟨row'', hrow'', hkey'⟩ := h'.keys row' hrow'
    exact ⟨row'', hrow'', hkey'.trans hkey⟩
  stale := Nat.le_trans h.stale h'.stale

instance : IsTrans UpstreamState Grows := ⟨fun _ _ _ => Grows.trans⟩

/-- The signal was observed, at `t` or before. -/
def Seen (signal : UpstreamReleaseSignal) (t : Int) (s : UpstreamState) : Prop :=
  ∃ first, s.observed signal.signal = some first ∧ first ≤ t

/-- A request for the signal exists. -/
def Covers (request : FactoryRequest) (upstreamUrl : String) (signal : UpstreamReleaseSignal) (s : UpstreamState) : Prop :=
  ∃ row ∈ s.requests, isFor request upstreamUrl signal s.observed row.toRequestKey = true

section
variable {request : FactoryRequest} {upstreamUrl : String} {signal : UpstreamReleaseSignal} {t : Int} {s s' : UpstreamState}

theorem Seen.grows (h : Seen signal t s) (hs : Grows s s') : Seen signal t s' := by
  obtain ⟨first, hfirst, hle⟩ := h
  exact ⟨first, hs.observed _ _ hfirst, hle⟩

theorem Covers.grows (h : Covers request upstreamUrl signal s) (hseen : Seen signal t s) (hs : Grows s s') :
    Covers request upstreamUrl signal s' := by
  obtain ⟨row, hrow, hfor⟩ := h
  obtain ⟨first, hfirst, -⟩ := hseen
  obtain ⟨row', hrow', hkey⟩ := hs.keys row hrow
  refine ⟨row', hrow', ?_⟩
  unfold isFor at hfor ⊢
  rw [hkey, hs.observed _ _ hfirst]
  rwa [hfirst] at hfor

theorem isFor_newRequest {id : String} {checkedAt : Int} (hseen : Seen signal checkedAt s) :
    isFor request upstreamUrl signal s.observed (newRequest request upstreamUrl signal id checkedAt).toRequestKey = true := by
  obtain ⟨first, hfirst, hle⟩ := hseen
  simp [isFor, sameSource, newRequest, hfirst, hle]

theorem Kept.observe (h : Kept s) : Kept (s.observe signal) := by
  refine ⟨fun other t ht => ?_, h.covered⟩
  unfold UpstreamState.observe at ht
  by_cases hother : other = signal.signal
  · subst hother
    simp only [Function.update_self, Option.some.injEq] at ht
    cases hbefore : s.observed signal.signal with
    | none =>
      rw [hbefore, Option.getD_none] at ht
      exact Int.le_of_eq ht.symm
    | some first =>
      rw [hbefore, Option.getD_some] at ht
      exact ht ▸ h.observed _ _ hbefore
  · simp only [Function.update_of_ne hother] at ht
    exact h.observed _ _ ht

/-- A signal that was observed keeps the time of it. -/
theorem observe_grows (s : UpstreamState) (signal : UpstreamReleaseSignal) : Grows s (s.observe signal) := by
  refine ⟨Int.le_refl _, fun other t ht => ?_, fun row hrow => ⟨row, hrow, rfl⟩, Nat.le_refl _⟩
  unfold UpstreamState.observe
  by_cases hother : other = signal.signal
  · subst hother
    simp [ht]
  · simpa [Function.update_of_ne hother] using ht

theorem newest_mem {rows : List RequestRow} {row : RequestRow} (h : newest rows = some row) : row ∈ rows := by
  unfold newest at h
  exact (List.mem_insertionSort _).mp (List.mem_of_head? h)

theorem findDuplicate_mem {row : RequestRow} (h : findDuplicate request upstreamUrl signal s = some row) :
    row ∈ s.requests := by
  unfold findDuplicate at h
  exact (List.mem_filter.mp (newest_mem h)).1

/-- A duplicate that is not stale covers the signal. -/
theorem covers_of_duplicate {row : RequestRow} (h : findDuplicate request upstreamUrl signal s = some row)
    (hfresh : isStale request upstreamUrl signal true s = false) : Covers request upstreamUrl signal s := by
  refine ⟨row, findDuplicate_mem h, ?_⟩
  simpa [isStale, h] using hfresh

/-- What the move of the checkpoint does. -/
theorem Kept.move {release : Bool} (h : Kept s) (hcovers : release = true → s.stale = 0 → Covers request upstreamUrl signal s)
    {n m : Nat} (hmove : moveCheckpoint request upstreamUrl signal release s n = .ok (s', m)) : Kept s' ∧ Grows s s' := by
  cases hmove
  have hgrows := refl_of Grows s
  refine ⟨⟨h.observed, fun hstale move hmem hrelease => ?_⟩, ⟨hgrows.clock, hgrows.observed, hgrows.keys, hgrows.stale⟩⟩
  rcases List.mem_append.mp hmem with hold | hnew
  · exact h.covered hstale move hold hrelease
  · rw [List.mem_singleton] at hnew
    subst hnew
    exact List.any_eq_true.mpr (hcovers hrelease hstale)

theorem Kept.insert {row : RequestRow} (h : Kept s) {n m : Nat} (hinsert : insertRequest row s n = .ok (s', m)) :
    Kept s' ∧ Grows s s' ∧ s' = { s with requests := s.requests ++ [row] } := by
  unfold insertRequest at hinsert
  obtain ⟨⟨requests, k⟩, hrows, hok⟩ := Fallible.bind_ok.mp hinsert
  obtain ⟨-, rfl, -⟩ := Sql.insert_ok.mp hrows
  cases hok
  refine ⟨⟨h.observed, h.covered⟩, ⟨Int.le_refl _, fun _ _ ht => ht, fun row' hrow' => ?_, Nat.le_refl _⟩, rfl⟩
  exact ⟨row', List.mem_append_left _ hrow', rfl⟩

end

/-! ## Calls -/

/-- What a call keeps, whoever runs beside it. -/
abbrev Records {α : Type} (Q : α → UpstreamState → Prop) (p : Prog UpstreamState String α) (s : UpstreamState) : Prop :=
  Keeps Kept (fun _ _ => True) Grows Grows Q p s

section
variable {request : FactoryRequest} {upstreamUrl : String} {signal : UpstreamReleaseSignal} {release : Bool}

theorem observe_keeps {α : Type} {Q : α → UpstreamState → Prop} {f : Int → Prog UpstreamState String α} {s : UpstreamState}
    (hf : ∀ t s, Kept s → Seen signal t s → Records Q (f t) s) : Records Q (observe signal >>= f) s := by
  refine keeps_transact_bind fun s₁ hi _ _ => ⟨hi.observe, observe_grows s₁ signal, fun t ht => ?_⟩
  cases ht
  refine hf _ _ hi.observe ⟨_, Function.update_self _ _ _, ?_⟩
  exact hi.observe.observed _ _ (Function.update_self _ _ _)

/-- A duplicate that was found covers the signal, unless a stale one was found. -/
theorem lookDuplicate_keeps {α : Type} {Q : α → UpstreamState → Prop}
    {f : Option RequestRow → Prog UpstreamState String α} {s : UpstreamState}
    (hf : ∀ duplicate s', Kept s' → Grows s s' →
      (release = true → duplicate ≠ none → s'.stale = 0 → Covers request upstreamUrl signal s') → Records Q (f duplicate) s') :
    Records Q (lookDuplicate request upstreamUrl signal release >>= f) s := by
  refine keeps_transact_bind fun s₁ hi hs _ => ?_
  have hle : s₁.stale ≤ s₁.stale + if isStale request upstreamUrl signal release s₁ then 1 else 0 := Nat.le_add_right _ _
  have hkept : Kept { s₁ with stale := s₁.stale + if isStale request upstreamUrl signal release s₁ then 1 else 0 } :=
    ⟨hi.observed, fun hstale => hi.covered (Nat.le_zero.mp (hstale ▸ hle))⟩
  have hgrows : Grows s₁ { s₁ with stale := s₁.stale + if isStale request upstreamUrl signal release s₁ then 1 else 0 } :=
    ⟨Int.le_refl _, fun _ _ ht => ht, fun row hrow => ⟨row, hrow, rfl⟩, hle⟩
  refine ⟨hkept, hgrows, fun duplicate hduplicate => ?_⟩
  cases hduplicate
  refine hf _ _ hkept (hs.trans hgrows) fun hrelease hfound hstale => ?_
  subst hrelease
  obtain ⟨row, hrow⟩ := Option.ne_none_iff_exists'.mp hfound
  have hfresh : isStale request upstreamUrl signal true s₁ = false := by
    by_contra hbad
    simp [hbad] at hstale
  exact covers_of_duplicate hrow hfresh

theorem moveBatch_keeps {α : Type} {Q : α → UpstreamState → Prop} {f : List Nat → Prog UpstreamState String α}
    {t : Int} {s : UpstreamState} (hseen : Seen signal t s)
    (hcovers : release = true → s.stale = 0 → Covers request upstreamUrl signal s)
    (hf : ∀ ns s', Kept s' → Records Q (f ns) s') :
    Records Q (runBatch [moveCheckpoint request upstreamUrl signal release] >>= f) s := by
  refine Sql.keeps_run_bind fun s₁ s₂ ns hi hs hrun _ => ?_
  obtain ⟨s₃, n₁, ns₁, hmove, hnil, rfl⟩ := Sql.runAll_cons_ok.mp hrun
  obtain ⟨rfl, rfl⟩ := Sql.runAll_nil_ok.mp hnil
  obtain ⟨hkept, hgrows⟩ := hi.move (fun hrelease hstale =>
    (hcovers hrelease (Nat.le_zero.mp (hstale ▸ hs.stale))).grows hseen hs) hmove
  exact ⟨hkept, hgrows, hf _ _ hkept⟩

/-- A new request is for the signal it was made for. -/
theorem createBatch_keeps {α : Type} {Q : α → UpstreamState → Prop} {f : List Nat → Prog UpstreamState String α}
    {id : String} {checkedAt : Int} {s : UpstreamState} (hseen : Seen signal checkedAt s)
    (hf : ∀ ns s', Kept s' → Records Q (f ns) s') :
    Records Q (runBatch [insertRequest (newRequest request upstreamUrl signal id checkedAt),
      moveCheckpoint request upstreamUrl signal release] >>= f) s := by
  refine Sql.keeps_run_bind fun s₁ s₂ ns hi hs hrun _ => ?_
  obtain ⟨s₃, n₁, ns₁, hinsert, hrest, rfl⟩ := Sql.runAll_cons_ok.mp hrun
  obtain ⟨s₄, n₂, ns₂, hmove, hnil, rfl⟩ := Sql.runAll_cons_ok.mp hrest
  obtain ⟨rfl, rfl⟩ := Sql.runAll_nil_ok.mp hnil
  obtain ⟨hinserted, hgrows, rfl⟩ := hi.insert hinsert
  obtain ⟨hkept, hgrows'⟩ := hinserted.move (fun _ _ =>
    ⟨_, List.mem_append_right _ List.mem_cons_self, isFor_newRequest (s := s₁) (hseen.grows hs)⟩) hmove
  exact ⟨hkept, hgrows.trans hgrows', hf _ _ hkept⟩

theorem settleRelease_keeps {id : String} {checkedAt : Int} {duplicate active : Option RequestRow} {s : UpstreamState}
    (hseen : Seen signal checkedAt s)
    (hcovers : release = true → duplicate ≠ none → s.stale = 0 → Covers request upstreamUrl signal s) :
    Records (fun _ _ => True) (settleRelease request upstreamUrl signal id checkedAt release duplicate active) s := by
  have hdone (a : Option String) (s : UpstreamState) :
      Records (fun _ _ => True) (pure a : Prog UpstreamState String (Option String)) s := fun _ _ _ => trivial
  unfold settleRelease
  split
  · exact hdone _ _
  · exact createBatch_keeps hseen fun _ _ _ => hdone _ _
  · next hactive hnone =>
    refine moveBatch_keeps hseen (fun hrelease => hcovers hrelease ?_) fun _ _ _ => hdone _ _
    -- a new release without a duplicate was settled above
    rintro rfl
    cases hrow : active with
    | none => exact hnone hrelease rfl hrow
    | some row => exact hactive row hrelease rfl hrow

theorem recordUpstreamRelease_keeps (normalize : Normalize) (request : FactoryRequest) (signal : UpstreamReleaseSignal)
    (currentVersion : Option String) (id : String) (s : UpstreamState) :
    Records (fun _ _ => True) (recordUpstreamRelease normalize request signal currentVersion id) s := by
  unfold recordUpstreamRelease
  refine observe_keeps fun checkedAt s₁ _ hseen₁ => ?_
  refine keeps_read_bind fun s₂ _ hs₂ => ?_
  refine keeps_ofExcept_bind fun upstreamUrl _ => ?_
  refine lookDuplicate_keeps fun duplicate s₃ _ hs₃ hcovers => ?_
  have hseen₃ : Seen signal checkedAt s₃ := hseen₁.grows (hs₂.trans hs₃)
  split
  · next hlooked =>
    refine keeps_read_bind fun s₄ _ hs₄ => ?_
    exact settleRelease_keeps (hseen₃.grows hs₄) fun _ hfound => absurd hlooked.2 hfound
  · exact settleRelease_keeps hseen₃ hcovers

end

/-! ## Runs of checks -/

/-- A check of the tracked request, whose published version and commit change. -/
def Recording (normalize : Normalize) (tracked : FactoryRequest) (_ : Nat) (p : Prog UpstreamState String (Option String)) :
    Prop :=
  ∃ upstreamRef signal currentVersion id,
    p = recordUpstreamRelease normalize { tracked with upstreamRef } signal currentVersion id

/-- What happens beside the checks: time passes, and others make requests and act on them. -/
structure Happens (s s' : UpstreamState) : Prop where
  clock : s.clock ≤ s'.clock
  keys : ∀ row ∈ s.requests, ∃ row' ∈ s'.requests, row'.toRequestKey = row.toRequestKey
  checkpoint : s'.checkpoint = s.checkpoint
  observed : s'.observed = s.observed
  moves : s'.moves = s.moves
  stale : s'.stale = s.stale

theorem Happens.grows {s s' : UpstreamState} (h : Happens s s') : Grows s s' :=
  ⟨h.clock, fun _ _ ht => h.observed ▸ ht, h.keys, Nat.le_of_eq h.stale.symm⟩

theorem Happens.keeps {s s' : UpstreamState} (h : Happens s s') (hi : Kept s) : Kept s' where
  observed signal t ht := Int.le_trans (hi.observed signal t (h.observed ▸ ht)) h.clock
  covered hstale := by
    rw [h.moves]
    exact hi.covered (h.stale ▸ hstale)

theorem recording_agree (normalize : Normalize) (tracked : FactoryRequest) :
    Pool.Agree (Recording normalize tracked) Happens Kept (fun _ _ => True) (fun _ => Grows) (fun _ => Grows)
      (fun _ _ => True) where
  refl _ := inferInstance
  trans _ := inferInstance
  start := by
    rintro n p s ⟨upstreamRef, signal, currentVersion, id, rfl⟩ _
    exact recordUpstreamRelease_keeps normalize _ signal currentVersion id s
  others _ _ _ h := h
  outside h hi := ⟨h.keeps hi, fun _ => h.grows⟩

/-- The request was not checked yet. -/
structure Starts (s : UpstreamState) : Prop where
  checkpoint : s.checkpoint = none
  observed : ∀ signal, s.observed signal = none
  moves : s.moves = []
  stale : s.stale = 0

theorem Starts.kept {s : UpstreamState} (h : Starts s) : Kept s where
  observed signal t ht := by
    rw [h.observed] at ht
    cases ht
  covered _ m hm := by
    rw [h.moves] at hm
    cases hm

/-- A signal of a new release takes the place of another only if a request for it exists. -/
def Remembered (s : UpstreamState) : Prop :=
  ∀ m ∈ s.moves, m.release = true → (∃ previous, m.previous = some previous ∧ previous ≠ m.signal) → m.covered = true

/-! ## An archive that changes twice -/

def sampleRequest : FactoryRequest := ⟨"request", "tool", "https://example.org/tool.tgz", .archive, none⟩

def sampleSignal (signal : String) : UpstreamReleaseSignal :=
  ⟨.archive, none, none, signal, some "https://example.org/tool.tgz"⟩

def sampleStart : UpstreamState := ⟨0, [], none, fun _ => none, [], 0⟩

theorem sampleStart_starts : Starts sampleStart := ⟨rfl, fun _ => rfl, rfl, rfl⟩

/-- One more check, of a signal; the new request has its name. -/
def checking (signal : String) (pool : Pool UpstreamState String (Option String)) :
    Pool UpstreamState String (Option String) :=
  pool.starting (recordUpstreamRelease .ok sampleRequest (sampleSignal signal) none signal)

/-- A day goes by. -/
def waiting (pool : Pool UpstreamState String (Option String)) : Pool UpstreamState String (Option String) :=
  pool.moving fun s => { s with clock := s.clock + 1 }

theorem checking_next (signal : String) (pool : Pool UpstreamState String (Option String)) :
    Pool.Next (Recording .ok sampleRequest) Happens pool (checking signal pool) :=
  Pool.starting_next pool ⟨none, _, none, signal, rfl⟩

theorem waiting_next (pool : Pool UpstreamState String (Option String)) :
    Pool.Next (Recording .ok sampleRequest) Happens pool (waiting pool) :=
  Pool.moving_next _ pool ⟨Int.le_of_lt (Int.lt_succ _), fun row hrow => ⟨row, hrow, rfl⟩, rfl, rfl, rfl, rfl⟩

/-- The archive is checked, changes and is checked again. -/
def sampleChecks : Pool UpstreamState String (Option String) :=
  (checking "second" (waiting ((checking "first" ⟨sampleStart, []⟩).turns [0, 0, 0, 0]))).turns [1, 1, 1, 1, 1]

/-- It changes once more before its request was reviewed. -/
def moreChecks : Pool UpstreamState String (Option String) :=
  (checking "third" (waiting sampleChecks)).turns [2, 2, 2, 2]

/-- In every run in which no check of a new release finds a request of an earlier
signal, the checkpoint moves only to releases that have a request. -/
theorem changes_remembered (normalize : Normalize) (tracked : FactoryRequest) (s : UpstreamState) (hstart : Starts s)
    (pool : Pool UpstreamState String (Option String))
    (hrun : Pool.StepsIn (Recording normalize tracked) Happens (fun s s' => s'.stale = s.stale) ⟨s, []⟩ pool) :
    Remembered pool.state := by
  have hgood : (⟨s, []⟩ : Pool UpstreamState String (Option String)).Good Kept (fun _ _ => True) (fun _ => Grows)
      (fun _ => Grows) (fun _ _ => True) := Pool.good_start hstart.kept
  have hstale : pool.state.stale = 0 := by
    induction hrun with
    | refl => exact hstart.stale
    | tail _ hnext ih => exact hnext.2.trans ih
  have hkept : Kept pool.state :=
    (hgood.steps (recording_agree normalize tracked) (Relation.ReflTransGen.mono (fun _ _ hnext => hnext.1) _ _ hrun)).1
  exact fun m hm hrelease _ => hkept.covered hstale m hm hrelease

theorem changes_remembered_sample : Remembered sampleChecks.state := by
  refine changes_remembered .ok sampleRequest sampleStart sampleStart_starts sampleChecks ?_
  have hfirst : Pool.StepsIn (Recording .ok sampleRequest) Happens (fun s s' => s'.stale = s.stale)
      (checking "first" ⟨sampleStart, []⟩) ((checking "first" ⟨sampleStart, []⟩).turns [0, 0, 0, 0]) :=
    Pool.turns_stepsIn _ _ (by decide +kernel)
  have hsecond : Pool.StepsIn (Recording .ok sampleRequest) Happens (fun s s' => s'.stale = s.stale)
      (checking "second" (waiting ((checking "first" ⟨sampleStart, []⟩).turns [0, 0, 0, 0]))) sampleChecks :=
    Pool.turns_stepsIn [1, 1, 1, 1, 1] _ (by decide +kernel)
  have hchecked := (Relation.ReflTransGen.head ⟨checking_next "first" _, rfl⟩ hfirst).tail ⟨waiting_next _, rfl⟩
  exact (hchecked.tail ⟨checking_next "second" _, rfl⟩).trans hsecond

/-- The third contents of the archive are absorbed by the request for the second. -/
theorem change_forgotten :
    ¬∀ (s : UpstreamState) (pool : Pool UpstreamState String (Option String)), Starts s →
      Pool.Steps (Recording .ok sampleRequest) Happens ⟨s, []⟩ pool → Remembered pool.state := by
  intro h
  have hfirst := (checking_next "first" ⟨sampleStart, []⟩)
  have hchecks := (((Relation.ReflTransGen.single hfirst).trans (Pool.turns_steps [0, 0, 0, 0] _)).tail
    (waiting_next _)).tail (checking_next "second" _)
  have hmore := ((hchecks.trans (Pool.turns_steps [1, 1, 1, 1, 1] _)).tail (waiting_next _)).tail (checking_next "third" _)
  have hremembered := h sampleStart moreChecks sampleStart_starts (hmore.trans (Pool.turns_steps [2, 2, 2, 2] _))
  have hmove : ⟨some "second", "third", true, false⟩ ∈ moreChecks.state.moves := by decide +kernel
  have hcovered := hremembered _ hmove rfl ⟨"second", rfl, by decide⟩
  cases hcovered

end Omapkg.Server.Upstream
