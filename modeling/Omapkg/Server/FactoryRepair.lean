import Mathlib.Data.List.Perm.Subperm
import Omapkg.Server.FactoryInvariant
/-!
# Repair loops

`runFactoryRepairLoop`: reserve an attempt, execute it, finish it, and again
after a failure. A loop that is given an attempt it did not reserve executes
it all the same.
-/

namespace Omapkg.Server

open Utf Json Prog

/-! ## The loop -/

structure FactoryRepairCandidate where
  reservationKey : Option String
  candidateSha256 : String
  inputSha256 : String
  candidate : Option (Json JsString)
  candidateRevisionId : Option String
  architecture : Option Architecture

/-- What `prepare` throws: a policy stop, or anything else, with the message of
an `Error`. -/
inductive PrepareThrow where
  | policyStop (message : Option JsString)
  | other (message : Option JsString)

structure FactoryRepairResult extends FactoryAttemptResult where
  value : Option (Json JsString)

/-- The arguments of a loop. What `prepare` and `execute` answer may depend on
how often the loop has asked, and `ids` are the random ids of its reservations. -/
structure RepairLoop where
  runId : String
  policy : Json JsString
  prepare : Nat → Option (Json JsString) → Except PrepareThrow FactoryRepairCandidate
  execute : Nat → FactoryAttempt → FactoryRepairResult
  resumeRunningAttempt : Option Nat
  ids : Nat → String × String

inductive RepairAnswer where
  | attempt (a : FactoryAttempt)
  | value (v : Json JsString)

/-- The attempt that is running, for a loop that may take it up again; noted
with the loop if it does. -/
def takeUp (me : Nat) (loop : RepairLoop) (attempt : Nat) (s : FactoryState) :
    Except FactoryThrow (Option FactoryAttempt) × FactoryState :=
  match attemptRow loop.runId attempt s with
  | none => (.ok none, s)
  | some a =>
    if a.status = .running ∧ loop.resumeRunningAttempt = some a.attempt then
      (.ok (some a), { s with resumed := (me, a.runId, a.attempt) :: s.resumed })
    else (.ok none, s)

/-- Calls `execute`; that it was called is noted. -/
def executeAttempt (loop : RepairLoop) (n : Nat) (a : FactoryAttempt) :
    Prog FactoryState FactoryThrow FactoryRepairResult := do
  modify fun s => { s with executed := (a.runId, a.attempt) :: s.executed }
  pure (loop.execute n a)

def terminalReason (policy : Bool) : FactoryThrow :=
  if policy then .run "policy-stop" "Factory policy expansion requires human intervention."
  else .run "budget-exhausted" "Factory build budget exhausted after three attempts."

/-- Executes an attempt and finishes it; `next` goes on after a failure. -/
def settle (loop : RepairLoop) (n : Nat) (a : FactoryAttempt)
    (next : Json JsString → Prog FactoryState FactoryThrow RepairAnswer) :
    Prog FactoryState FactoryThrow RepairAnswer := do
  let result ← executeAttempt loop n a
  let finished ← finishFactoryAttempt loop.runId a.attempt a.leaseToken result.toFactoryAttemptResult
  if result.outcome = .succeeded then
    pure (match result.value with | none => .attempt finished | some v => .value v)
  else if result.failureKind = some .policy ∨ a.attempt = factoryMaxAttempts then
    fail (terminalReason (result.failureKind = some .policy))
  else
    next (coalesce result.failure (.obj [(units "kind",
      (result.failureKind.map fun kind => Json.str (units kind.text)).getD .null)]))

def candidateInput (loop : RepairLoop) (attempt : Nat) (candidate : FactoryRepairCandidate) : FactoryAttemptInput where
  runId := loop.runId
  reservationKey := candidate.reservationKey.getD s!"attempt:{attempt}"
  candidateSha256 := candidate.candidateSha256
  inputSha256 := candidate.inputSha256
  candidate := candidate.candidate
  candidateRevisionId := candidate.candidateRevisionId
  architecture := candidate.architecture
  policy := some loop.policy
  leaseSeconds := none

section
variable (sha256 : Bytes → Hash.Digest)

/-- The candidate that stands for one that could not be prepared. -/
def failedCandidate (loop : RepairLoop) (attempt : Nat) (reason : JsString) : FactoryRepairCandidate where
  reservationKey := some s!"attempt:{attempt}"
  candidateSha256 :=
    (sha256 (encode (toText (units s!"factory-candidate:{loop.runId}:{attempt}:" ++ reason)).toList)).hex
  inputSha256 := (sha256 (encode (canonicalJson loop.policy))).hex
  candidate := some (.obj [(units "preparationFailure", .str reason)])
  candidateRevisionId := none
  architecture := none

/-- The loop from an attempt on, for so many attempts as are left. -/
def repairFrom (me : Nat) (loop : RepairLoop) :
    Nat → Nat → Option (Json JsString) → Prog FactoryState FactoryThrow RepairAnswer
  | 0, _, _ => fail (.run "budget-exhausted" "Factory build budget exhausted after three attempts.")
  | left + 1, attempt, previousFailure =>
    match loop.prepare attempt previousFailure with
    | .error (.policyStop message) => do
      let _ ← stopFactoryRun loop.runId
        (message.getD (units "Factory policy expansion requires human intervention.")) (some loop.policy)
      fail (.cause message)
    | .error (.other message) => do
      let reason := (message.map (·.take 2000)).getD (units "Factory candidate preparation failed.")
      let reserved ← reserveFactoryAttempt (some me)
        (candidateInput loop attempt (failedCandidate sha256 loop attempt reason)) (loop.ids attempt).1 (loop.ids attempt).2
      if reserved.status = .succeeded then pure (.attempt reserved)
      else
        let message : Json JsString := .obj [(units "message", .str reason)]
        let finished ← finishFactoryAttempt loop.runId reserved.attempt reserved.leaseToken
          ⟨.failed, none, some .validation, some message⟩
        if reserved.attempt = factoryMaxAttempts then fail (terminalReason false)
        else repairFrom me loop left (attempt + 1) (some (coalesce finished.failure message))
    | .ok candidate => do
      let reserved ← reserveFactoryAttempt (some me) (candidateInput loop attempt candidate)
        (loop.ids attempt).1 (loop.ids attempt).2
      if reserved.status = .succeeded then pure (.attempt reserved)
      else settle loop attempt reserved fun failure => repairFrom me loop left (attempt + 1) (some failure)

/-- `for (attempt = nextAttempt; attempt <= FACTORY_MAX_ATTEMPTS; …)`. -/
def repairLoop (me : Nat) (loop : RepairLoop) (nextAttempt : Nat) (previousFailure : Option (Json JsString)) :
    Prog FactoryState FactoryThrow RepairAnswer :=
  repairFrom sha256 me loop (factoryMaxAttempts + 1 - nextAttempt) nextAttempt previousFailure

def runFactoryRepairLoop (me : Nat) (loop : RepairLoop) : Prog FactoryState FactoryThrow RepairAnswer := do
  let _ ← ofExcept (requireIdentifier loop.runId "run id")
  let found ← read (runRow loop.runId)
  match found with
  | none => fail (.run "not-found" "Factory run not found.")
  | some saved =>
    if saved.status = .succeeded ∧ saved.successfulAttempt.isSome then
      let _ ← ofExcept (requireAttempt (saved.successfulAttempt.getD 0))
      let completed ← read (attemptRow loop.runId (saved.successfulAttempt.getD 0))
      match completed with
      | none => fail (.run "storage" "Successful factory attempt is missing.")
      | some a => pure (.attempt a)
    else if saved.status = .needsHumanIntervention ∨ saved.status = .cancelled then
      fail (.run "human-intervention" "Factory run requires human intervention.")
    else if saved.status = .running then
      let _ ← ofExcept (requireAttempt (saved.currentAttempt.getD 0))
      let active ← transact (takeUp me loop (saved.currentAttempt.getD 0))
      match active with
      | none =>
        let _ ← stopFactoryRun loop.runId (units "Attempt execution status is ambiguous after workflow restart.") none
        fail (.run "human-intervention" "Factory attempt execution is ambiguous; human intervention is required.")
      | some a => settle loop 0 a fun failure => repairLoop sha256 me loop (a.attempt + 1) (some failure)
    else repairLoop sha256 me loop (saved.attemptCount + 1) saved.failure

end

/-! ## What loops are given -/

/-- The attempts loops have reserved or taken up again, each with its loop. -/
def given (s : FactoryState) : List (Nat × String × Nat) := s.taken ++ s.resumed

/-- Each attempt is given to one loop and executed once, by the loop that has it. -/
structure RepairOk (s : FactoryState) : Prop where
  tables : FactoryOk s
  once : ((given s).map Prod.snd).Nodup
  known : ∀ x ∈ given s, ∃ a ∈ s.attempts, a.runId = x.2.1 ∧ a.attempt = x.2.2
  executed : s.executed.Nodup
  covered : ∀ x ∈ s.executed, x ∈ (given s).map Prod.snd

/-- A loop is given no attempt that it did not reserve, unless that has
succeeded, and takes up again none that a loop has been given before. -/
def Single (s s' : FactoryState) : Prop :=
  s'.redelivered = s.redelivered ∧
    (s'.resumed = s.resumed ∨ ∃ n x, s'.resumed = (n, x) :: s.resumed ∧ x ∉ (given s).map Prod.snd)

/-- What the `n`-th program does: it executes what it was given. -/
def Executes (n : Nat) (s s' : FactoryState) : Prop :=
  (∀ y ∈ given s, y ∈ given s') ∧ ∀ x ∈ s'.executed, x ∈ s.executed ∨ (n, x) ∈ given s

/-- What others leave to the `n`-th program. -/
def LeavesTo (n : Nat) (s s' : FactoryState) : Prop :=
  (∀ y ∈ given s, y ∈ given s') ∧ ∀ x, (n, x) ∈ given s → x ∈ s'.executed → x ∈ s.executed

instance (n : Nat) : Std.Refl (Executes n) := ⟨fun _ => ⟨fun _ h => h, fun _ h => .inl h⟩⟩

instance (n : Nat) : Std.Refl (LeavesTo n) := ⟨fun _ => ⟨fun _ h => h, fun _ _ h => h⟩⟩

instance (n : Nat) : IsTrans FactoryState (LeavesTo n) :=
  ⟨fun _ _ _ h h' => ⟨fun y hy => h'.1 y (h.1 y hy), fun x hx hx' => h.2 x hx (h'.2 x (h.1 _ hx) hx')⟩⟩

/-- The attempt is the loop's to execute. -/
def Holds (n : Nat) (x : String × Nat) (s : FactoryState) : Prop := (n, x) ∈ given s ∧ x ∉ s.executed

theorem Holds.stable {n : Nat} {x : String × Nat} {s s' : FactoryState} (h : Holds n x s) (hs : LeavesTo n s s') :
    Holds n x s' := ⟨hs.1 _ h.1, fun hx => h.2 (hs.2 x h.1 hx)⟩

theorem RepairOk.owner {s : FactoryState} (h : RepairOk s) {m n : Nat} {x : String × Nat} (hm : (m, x) ∈ given s)
    (hn : (n, x) ∈ given s) : m = n := by
  have hsame := List.inj_on_of_nodup_map h.once hm hn rfl
  exact (Prod.mk.inj hsame).1

/-- Programs leave each other's attempts alone. -/
theorem Executes.others {m n : Nat} (hmn : m ≠ n) {s s' : FactoryState} (hi : RepairOk s) (h : Executes m s s') :
    LeavesTo n s s' := by
  refine ⟨h.1, fun x hx hx' => ?_⟩
  rcases h.2 x hx' with hold | hmine
  · exact hold
  · exact absurd (hi.owner hmine hx) hmn

/-- A step on the tables keeps each attempt given once. -/
theorem Advance.repairOk {me : Option Nat} {s s' : FactoryState} (hi : RepairOk s) (hok : FactoryOk s')
    (h : Advance me s s') : RepairOk s' ∧ (∀ y ∈ given s, y ∈ given s') ∧ s'.executed = s.executed := by
  obtain ⟨-, hkept, hexecuted, hresumed, htaken⟩ := h
  have hold : ∀ x ∈ given s, ∃ a ∈ s'.attempts, a.runId = x.2.1 ∧ a.attempt = x.2.2 := by
    intro x hx
    obtain ⟨a, ha, hrun, hattempt⟩ := hi.known x hx
    obtain ⟨b, hb, hrun', hattempt'⟩ := hkept a ha
    exact ⟨b, hb, hrun'.trans hrun, hattempt'.trans hattempt⟩
  rcases htaken with hsame | ⟨n, runId, k, -, hcons, hfresh, hnew⟩
  · have hgiven : given s' = given s := by rw [given, given, hsame, hresumed]
    exact ⟨⟨hok, hgiven ▸ hi.once, hgiven ▸ hold, hexecuted ▸ hi.executed, by rw [hgiven, hexecuted]; exact hi.covered⟩,
      fun y hy => hgiven ▸ hy, hexecuted⟩
  · have hgiven : given s' = (n, runId, k) :: given s := by rw [given, given, hcons, hresumed, List.cons_append]
    have hnotin : (runId, k) ∉ (given s).map Prod.snd := by
      intro hmem
      obtain ⟨x, hx, hxs⟩ := List.mem_map.mp hmem
      obtain ⟨a, ha, hrun, hattempt⟩ := hi.known x hx
      rw [hxs] at hrun hattempt
      exact hfresh a ha ⟨hrun, hattempt⟩
    refine ⟨⟨hok, ?_, ?_, hexecuted ▸ hi.executed, ?_⟩, fun y hy => ?_, hexecuted⟩
    · rw [hgiven, List.map_cons]
      exact List.nodup_cons.mpr ⟨hnotin, hi.once⟩
    · rw [hgiven]
      intro x hx
      rcases List.mem_cons.mp hx with rfl | hx
      · exact hnew
      · exact hold x hx
    · rw [hgiven, hexecuted, List.map_cons]
      exact fun x hx => List.mem_cons_of_mem _ (hi.covered x hx)
    · rw [hgiven]
      exact List.mem_cons_of_mem _ hy

/-- What is given to a loop is its to execute, or has succeeded. -/
def GivenTo (me : Option Nat) (a : FactoryAttempt) (s : FactoryState) : Prop :=
  ∀ n, me = some n → a.status = .succeeded ∨ Holds n (a.runId, a.attempt) s

theorem attemptRow_eq {runId : String} {attempt : Nat} {s : FactoryState} {a : FactoryAttempt}
    (h : attemptRow runId attempt s = some a) : a ∈ s.attempts ∧ a.runId = runId ∧ a.attempt = attempt := by
  have hfound := List.find?_some h
  simp only [Bool.and_eq_true, decide_eq_true_eq] at hfound
  exact ⟨List.mem_of_find?_eq_some h, hfound.1, hfound.2⟩

theorem repair_terms (n : Nat) (me : Option Nat) (hme : me = none ∨ me = some n) :
    Terms me RepairOk Single (Executes n) (LeavesTo n) (GivenTo me) where
  ok h := h.tables
  step hi hok hadvance _ := by
    obtain ⟨hi', hgiven, hexecuted⟩ := hadvance.repairOk hi hok
    exact ⟨hi', hgiven, fun x hx => .inl (hexecuted ▸ hx)⟩
  found {input s a s'} hi hc hfound hi' hr := by
    rintro m rfl
    left
    by_contra hstatus
    have hredelivered := hc.1
    simp only [findReserved, hfound, hstatus, if_false] at hredelivered
    omega
  took {s s' s'' a k row} hi hi' htaken hadvance hi'' hr hrow := by
    rintro m rfl
    right
    obtain ⟨-, hrun, hattempt⟩ := attemptRow_eq hrow
    obtain rfl : m = n := by simpa using hme
    rw [hrun, hattempt]
    refine Holds.stable ⟨?_, fun hmem => ?_⟩ hr
    · rw [given, htaken]
      simp
    · rw [hadvance.executed] at hmem
      obtain ⟨x, hx, hxs⟩ := List.mem_map.mp (hi.covered _ hmem)
      have hnodup := hi'.once
      have hgiven : given s' = (m, row.runId, row.attempt) :: given s := by
        rw [given, given, htaken, hadvance.resumed]
        rfl
      rw [hgiven, List.map_cons, List.nodup_cons] at hnodup
      exact hnodup.1 (List.mem_map.mpr ⟨x, hx, hxs⟩)

/-! ## What a loop keeps -/

section
variable {n : Nat}

/-- Executing what it holds is all a loop does outside the tables. -/
theorem executeAttempt_keeps (loop : RepairLoop) (k : Nat) (a : FactoryAttempt) {s : FactoryState}
    (h : Holds n (a.runId, a.attempt) s) :
    Keeps RepairOk Single (Executes n) (LeavesTo n) (fun _ _ => True) (executeAttempt loop k a) s := by
  intro s' hi hr _
  have hholds := h.stable hr
  refine ⟨⟨⟨hi.tables.ids, hi.tables.owned, hi.tables.runs⟩, hi.once, hi.known, ?_, ?_⟩, ⟨fun _ hy => hy, ?_⟩,
    fun _ _ _ => trivial⟩
  · exact List.nodup_cons.mpr ⟨hholds.2, hi.executed⟩
  · intro x hx
    rcases List.mem_cons.mp hx with rfl | hx
    · exact List.mem_map.mpr ⟨_, hholds.1, rfl⟩
    · exact hi.covered x hx
  · intro x hx
    rcases List.mem_cons.mp hx with rfl | hx
    · exact .inr hholds.1
    · exact .inl hx

theorem settle_keeps (loop : RepairLoop) (k : Nat) (a : FactoryAttempt)
    {next : Json JsString → Prog FactoryState FactoryThrow RepairAnswer} {s : FactoryState} (hi : RepairOk s)
    (h : Holds n (a.runId, a.attempt) s)
    (hnext : ∀ failure s, RepairOk s →
      Keeps RepairOk Single (Executes n) (LeavesTo n) (fun _ _ => True) (next failure) s) :
    Keeps RepairOk Single (Executes n) (LeavesTo n) (fun _ _ => True) (settle loop k a next) s := by
  refine keeps_bind hi (executeAttempt_keeps loop k a h) fun result s₁ hi₁ _ => ?_
  refine keeps_bind hi₁ (finish_keeps (repair_terms n none (.inl rfl)) _ _ _ _ s₁) fun finished s₂ hi₂ _ => ?_
  split
  · exact fun _ _ _ => trivial
  · split
    · trivial
    · exact hnext _ s₂ hi₂

variable (sha256 : Bytes → Hash.Digest)

theorem repairFrom_keeps (loop : RepairLoop) (left attempt : Nat) (previousFailure : Option (Json JsString))
    {s : FactoryState} (hi : RepairOk s) :
    Keeps RepairOk Single (Executes n) (LeavesTo n) (fun _ _ => True)
      (repairFrom sha256 n loop left attempt previousFailure) s := by
  have hterms := repair_terms n (some n) (.inr rfl)
  induction left generalizing attempt previousFailure s with
  | zero => trivial
  | succ left ih =>
    unfold repairFrom
    split
    · exact stop_fail_keeps hterms _ _ _ _ hi
    · refine keeps_bind hi (reserve_keeps hterms _ _ _ s) fun reserved s₁ hi₁ _ => ?_
      split
      · exact fun _ _ _ => trivial
      · refine keeps_bind hi₁ (finish_keeps hterms _ _ _ _ s₁) fun finished s₂ hi₂ _ => ?_
        split
        · trivial
        · exact ih (attempt + 1) _ hi₂
    · refine keeps_bind hi (reserve_keeps hterms _ _ _ s) fun reserved s₁ hi₁ hgiven => ?_
      split
      · exact fun _ _ _ => trivial
      · next hstatus =>
        have hholds := (hgiven n rfl).resolve_left hstatus
        exact settle_keeps loop attempt reserved hi₁ hholds fun failure s₂ hi₂ => ih (attempt + 1) _ hi₂

/-- What is taken up again is the loop's, if no loop was given it before. -/
theorem takeUp_keeps (loop : RepairLoop) (k : Nat) {s : FactoryState} (hi : RepairOk s)
    (hc : Single s (takeUp n loop k s).2) :
    RepairOk (takeUp n loop k s).2 ∧ Executes n s (takeUp n loop k s).2 ∧
      ∀ a, (takeUp n loop k s).1 = .ok (some a) → Holds n (a.runId, a.attempt) (takeUp n loop k s).2 := by
  have hsame : RepairOk s ∧ Executes n s s ∧
      ∀ a, (Except.ok none : Except FactoryThrow (Option FactoryAttempt)) = .ok (some a) →
        Holds n (a.runId, a.attempt) s := ⟨hi, refl_of (Executes n) s, by simp⟩
  unfold takeUp at hc ⊢
  cases hrow : attemptRow loop.runId k s with
  | none => exact hsame
  | some a =>
    obtain ⟨hmem, -, -⟩ := attemptRow_eq hrow
    simp only [hrow] at hc ⊢
    split at hc <;> rename_i hresume
    · rw [if_pos hresume]
      have hfresh : (a.runId, a.attempt) ∉ (given s).map Prod.snd := by
        rcases hc.2 with hnone | ⟨m, x, hcons, hx⟩
        · exact absurd hnone (List.cons_ne_self _ _)
        · obtain ⟨hmx, -⟩ := List.cons.inj hcons
          obtain ⟨-, rfl⟩ := Prod.mk.inj hmx
          exact hx
      have hperm : (given { s with resumed := (n, a.runId, a.attempt) :: s.resumed }).Perm
          ((n, a.runId, a.attempt) :: given s) := List.perm_middle
      have hgiven : ∀ y ∈ given s, y ∈ given { s with resumed := (n, a.runId, a.attempt) :: s.resumed } :=
        fun y hy => hperm.mem_iff.mpr (List.mem_cons_of_mem _ hy)
      refine ⟨⟨⟨hi.tables.ids, hi.tables.owned, hi.tables.runs⟩, ?_, fun x hx => ?_, hi.executed, fun x hx => ?_⟩,
        ⟨hgiven, fun _ hx => .inl hx⟩, fun b hb => ?_⟩
      · rw [(hperm.map Prod.snd).nodup_iff, List.map_cons]
        exact List.nodup_cons.mpr ⟨hfresh, hi.once⟩
      · rcases List.mem_cons.mp (hperm.mem_iff.mp hx) with rfl | hx
        · exact ⟨a, hmem, rfl, rfl⟩
        · exact hi.known x hx
      · obtain ⟨y, hy, rfl⟩ := List.mem_map.mp (hi.covered x hx)
        exact List.mem_map.mpr ⟨y, hgiven y hy, rfl⟩
      · cases hb
        exact ⟨hperm.mem_iff.mpr List.mem_cons_self, fun hx => hfresh (hi.covered _ hx)⟩
    · rw [if_neg hresume]
      exact hsame

theorem runFactoryRepairLoop_keeps (loop : RepairLoop) (s : FactoryState) :
    Keeps RepairOk Single (Executes n) (LeavesTo n) (fun _ _ => True) (runFactoryRepairLoop sha256 n loop) s := by
  have hterms := repair_terms n (some n) (.inr rfl)
  unfold runFactoryRepairLoop
  refine keeps_ofExcept_bind fun _ _ => keeps_read_bind fun s₁ hi₁ _ => ?_
  cases runRow loop.runId s₁ with
  | none => trivial
  | some saved =>
    simp only
    split
    · refine keeps_ofExcept_bind fun _ _ => keeps_read_bind fun s₂ _ _ => ?_
      cases attemptRow loop.runId (saved.successfulAttempt.getD 0) s₂ with
      | none => trivial
      | some a => exact fun _ _ _ => trivial
    · split
      · trivial
      · split
        · refine keeps_ofExcept_bind fun _ _ => keeps_transact_bind fun s₂ hi₂ _ hc => ?_
          obtain ⟨hi₃, hexec, hgiven⟩ := takeUp_keeps loop (saved.currentAttempt.getD 0) hi₂ hc
          refine ⟨hi₃, hexec, fun active hactive => ?_⟩
          cases active with
          | none => exact stop_fail_keeps hterms _ _ _ _ hi₃
          | some a =>
            exact settle_keeps loop 0 a hi₃ (hgiven a hactive) fun failure s₄ hi₄ => repairFrom_keeps sha256 loop _ _ _ hi₄
        · exact repairFrom_keeps sha256 loop _ _ _ hi₁

/-! ## Runs of loops -/

/-- A repair loop, or another request on the runs. -/
inductive RepairRequest : Nat → Prog FactoryState FactoryThrow Unit → Prop where
  | loop (n : Nat) (loop : RepairLoop) : RepairRequest n (runFactoryRepairLoop sha256 n loop >>= fun _ => pure ())
  | other (n : Nat) (p : Prog FactoryState FactoryThrow Unit) : FactoryRequest n p → RepairRequest n p

theorem FactoryRequest.keeps {p : Prog FactoryState FactoryThrow Unit} (h : FactoryRequest n p) {s : FactoryState}
    (hi : RepairOk s) : Keeps RepairOk Single (Executes n) (LeavesTo n) (fun _ _ => True) p s := by
  have hterms := repair_terms n none (.inl rfl)
  cases h with
  | reserve input attemptId leaseToken =>
    exact keeps_bind hi (reserve_keeps hterms input attemptId leaseToken s) fun _ _ _ _ _ _ _ => trivial
  | renew runId attempt leaseToken leaseSeconds =>
    exact keeps_bind hi (renew_keeps hterms runId attempt leaseToken leaseSeconds s) fun _ _ _ _ _ _ _ => trivial
  | finish runId attempt leaseToken result =>
    exact keeps_bind hi (finish_keeps hterms runId attempt leaseToken result s) fun _ _ _ _ _ _ _ => trivial
  | stop runId reason policy =>
    exact keeps_bind hi (stop_keeps hterms runId reason policy s) fun _ _ _ _ _ _ _ => trivial

theorem repair_agree :
    Pool.Agree (RepairRequest sha256) FactoryMoves RepairOk Single Executes LeavesTo fun _ _ => True where
  refl _ := inferInstance
  trans _ := inferInstance
  start := by
    rintro n p s hrequest hi
    cases hrequest with
    | loop loop => exact keeps_bind hi (runFactoryRepairLoop_keeps sha256 loop s) fun _ _ _ _ _ _ _ => trivial
    | other p h => exact h.keeps hi
  others hmn hi _ h := h.others hmn hi
  outside hmove hi := by
    obtain ⟨hok, hadvance⟩ := hmove.ok hi.tables
    obtain ⟨hi', hgiven, hexecuted⟩ := hadvance.repairOk hi hok
    exact ⟨hi', fun _ => ⟨hgiven, fun x _ hx => hexecuted ▸ hx⟩⟩

/-- What is executed of one run is executed at most three times. -/
theorem RepairOk.executed_le {s : FactoryState} (h : RepairOk s) (runId : String) :
    s.executed.countP (·.1 = runId) ≤ 3 := by
  have hnumbers : ∀ k ∈ (s.executed.filter (·.1 = runId)).map Prod.snd, k ∈ List.range' 1 3 := by
    intro k hk
    obtain ⟨x, hx, rfl⟩ := List.mem_map.mp hk
    obtain ⟨hmem, hid⟩ := List.mem_filter.mp hx
    obtain ⟨y, hy, rfl⟩ := List.mem_map.mp (h.covered x hmem)
    obtain ⟨a, ha, hrun, hattempt⟩ := h.known y hy
    obtain ⟨run, hrunmem, hrunid⟩ := h.tables.owned a ha
    have hok := h.tables.runs run hrunmem
    have hof : a ∈ attemptsOf s run.id := mem_attemptsOf.mpr ⟨ha, hrunid.symm⟩
    have hpos := hok.attempt_pos hof
    have hle := hok.attempt_le hof
    have hbounded := hok.bounded
    unfold factoryMaxAttempts at hbounded
    rw [List.mem_range'_1, ← hattempt]
    omega
  have hnodup : ((s.executed.filter (·.1 = runId)).map Prod.snd).Nodup := by
    refine List.Nodup.map_on (fun x hx y hy hxy => ?_) (h.executed.filter _)
    have hxid := (List.mem_filter.mp hx).2
    have hyid := (List.mem_filter.mp hy).2
    simp only [decide_eq_true_eq] at hxid hyid
    exact Prod.ext (hxid.trans hyid.symm) hxy
  rw [List.countP_eq_length_filter, ← List.length_map Prod.snd]
  exact (List.subperm_of_subset hnodup hnumbers).length_le

/-- Where loops are only given what they reserved, or take up what no loop was
given, each attempt is executed at most once and a run at most three times. -/
theorem repairs_once (clock : Int) (builds : List FactoryBuild) (imageJobs : Option (List FactoryImageJob))
    (pool : Pool FactoryState FactoryThrow Unit)
    (hrun : Pool.StepsIn (RepairRequest sha256) FactoryMoves Single (factoryStart clock builds imageJobs) pool) :
    pool.state.executed.Nodup ∧ ∀ runId, pool.state.executed.countP (·.1 = runId) ≤ 3 := by
  have hstart : (factoryStart clock builds imageJobs).Good RepairOk Single Executes LeavesTo fun _ _ => True :=
    Pool.good_start ⟨⟨by simp, by simp, by simp⟩, by simp [given], by simp [given], by simp, by simp⟩
  have hi := (hstart.stepsIn (repair_agree sha256) hrun).1
  exact ⟨hi.executed, hi.executed_le⟩

end

/-! ## Two loops at once -/

/-- A loop whose candidate is a revision of its own, and whose executions fail. -/
def sampleLoop (revision : String) : RepairLoop where
  runId := "run-1"
  policy := .null
  prepare := fun _ _ => .ok ⟨none, String.ofList (List.replicate 64 'a'), String.ofList (List.replicate 64 'b'), none,
    some revision, none⟩
  execute := fun _ _ => ⟨⟨.failed, none, some .build, none⟩, none⟩
  resumeRunningAttempt := none
  ids := fun attempt => (revision ++ s!"-{attempt}", revision ++ s!"-token-{attempt}")

def zeroHash (_ : Bytes) : Hash.Digest := .zero

/-- Two loops start on a queued run. -/
def loopsStarted : Pool FactoryState FactoryThrow Unit :=
  (((factoryStart 1000 [] none).moving addSampleRun).starting
    (runFactoryRepairLoop zeroHash 0 (sampleLoop "revision-0") >>= fun _ => pure ())).starting
    (runFactoryRepairLoop zeroHash 1 (sampleLoop "revision-1") >>= fun _ => pure ())

/-- The first reserves an attempt and executes it. -/
def firstExecuted : Pool FactoryState FactoryThrow Unit := loopsStarted.turns (List.replicate 9 0)

/-- Both find the run queued; the second loses the race for the reservation,
and is answered with the attempt of the first. -/
def bothExecuted : Pool FactoryState FactoryThrow Unit :=
  loopsStarted.turns (List.replicate 6 0 ++ List.replicate 6 1 ++ List.replicate 3 0 ++ List.replicate 3 1)

theorem firstExecuted_once :
    firstExecuted.state.executed.Nodup ∧ ∀ runId, firstExecuted.state.executed.countP (·.1 = runId) ≤ 3 := by
  refine repairs_once zeroHash 1000 [] none firstExecuted ?_
  refine .head ⟨Pool.moving_next addSampleRun _ addSampleRun_moves, rfl, .inl rfl⟩ ?_
  refine .head ⟨Pool.starting_next _ (.loop 0 (sampleLoop "revision-0")), rfl, .inl rfl⟩ ?_
  refine .head ⟨Pool.starting_next _ (.loop 1 (sampleLoop "revision-1")), rfl, .inl rfl⟩ (Pool.turns_stepsIn _ _ ?_)
  have hsingle : ∀ k < 9,
      let s := (loopsStarted.turns ((List.replicate 9 0).take k)).state
      let s' := (loopsStarted.turns ((List.replicate 9 0).take (k + 1))).state
      s'.redelivered = s.redelivered ∧ s'.resumed = s.resumed := by
    decide +kernel
  exact fun k hk => ⟨(hsingle k hk).1, .inl (hsingle k hk).2⟩

/-- One attempt executed by two loops. -/
theorem attempt_executed_twice :
    ¬∀ pool, Pool.Steps (RepairRequest zeroHash) FactoryMoves (factoryStart 1000 [] none) pool →
      pool.state.executed.Nodup ∧ ∀ runId, pool.state.executed.countP (·.1 = runId) ≤ 3 := by
  intro h
  have hstart : Pool.Steps (RepairRequest zeroHash) FactoryMoves (factoryStart 1000 [] none)
      (factoryStart 1000 [] none) := .refl
  have hsteps := ((hstart.moving addSampleRun addSampleRun_moves).starting (.loop 0 (sampleLoop "revision-0"))).starting
    (.loop 1 (sampleLoop "revision-1"))
  have hnodup := (h bothExecuted (hsteps.turns _)).1
  have htwice : bothExecuted.state.executed = [("run-1", 1), ("run-1", 1)] := by decide +kernel
  rw [htwice] at hnodup
  exact absurd hnodup (by simp)

end Omapkg.Server
