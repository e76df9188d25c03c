import Omapkg.Server.FactoryFence
import Omapkg.Server.WorkerProtocol
/-!
# Heartbeats

`heartbeatJob` of `src/src/lib/server/worker-results.ts`. The call checks a lease, then
renews it in a batch whose update looks for the lease again. It does not ask what the
update found: a lease that is lost in between is answered as renewed. So is one that the
batch itself takes away, when the metadata that comes with the heartbeat fires a trigger
of the workers' table.
-/

namespace Omapkg.Server.Heartbeat

open Utf Json Prog
open Omapkg.Server.Audited (AuditEvent)

def leaseSeconds : Int := 180

/-! ## Rows -/

inductive WorkerRuntime where
  | podman | docker
  deriving DecidableEq, Repr

inductive WorkerCapability where
  | offlineOci | multipartUpload | registryPull | runtimeAnalysisV1 | multiOutputV2 | frozenInputsV1 | recipeInspectionV1
  | recipeInspectionOverrideV1 | preservedRecipeV1 | helperShellAnalysisV1 | abiInventoryV1
  | singleBuildReproducibilityV1 | factoryImageV1
  deriving DecidableEq, Repr

def WorkerRuntime.text : WorkerRuntime → String
  | podman => "podman"
  | docker => "docker"

def WorkerCapability.text : WorkerCapability → String
  | offlineOci => "offline-oci"
  | multipartUpload => "multipart-upload"
  | registryPull => "registry-pull"
  | runtimeAnalysisV1 => "runtime-analysis-v1"
  | multiOutputV2 => "multi-output-v2"
  | frozenInputsV1 => "frozen-inputs-v1"
  | recipeInspectionV1 => "recipe-inspection-v1"
  | recipeInspectionOverrideV1 => "recipe-inspection-override-v1"
  | preservedRecipeV1 => "preserved-recipe-v1"
  | helperShellAnalysisV1 => "helper-shell-analysis-v1"
  | abiInventoryV1 => "abi-inventory-v1"
  | singleBuildReproducibilityV1 => "single-build-reproducibility-v1"
  | factoryImageV1 => "factory-image-v1"

structure WorkerMetadata where
  version : String
  runtime : WorkerRuntime
  capabilities : List WorkerCapability

/-- What a heartbeat and the triggers read of a row of `workers`. -/
structure WorkerRow where
  id : String
  status : WorkerStatus
  architecture : Architecture
  lastSeenAt : Option Int
  daemonVersion : Option String
  runtime : Option WorkerRuntime
  capabilities : List WorkerCapability

/-- What a heartbeat and the triggers read of a row of `builds`. The last six fields are
no columns: they are what the other tables say of the build. -/
structure LeasedBuild where
  architecture : Architecture
  status : JobStatus
  workerId : Option String
  leaseToken : Option String
  leaseExpiresAt : Option Int
  preservedInputs : Bool
  /-- The joins of `getBuildForWorker` find it. -/
  authorized : Bool
  /-- Its input lock asks for the helper's shell analysis. -/
  helperAnalysis : Bool
  /-- `build_input_lock_current` refuses a lease of it. -/
  lockChanged : Bool
  /-- It has preserved inputs or comes of a preserved import. -/
  preservedRevision : Bool
  /-- `preserved_build_lease` finds its lock, its contract and its current inputs. -/
  preservedLeasable : Bool
  /-- Its capture and source bundle are those of the current inputs. -/
  preservedCurrent : Bool

/-- The tables by their keys, the log and the clock. -/
structure HeartbeatState where
  clock : Int
  builds : String → Option LeasedBuild
  workers : String → Option WorkerRow
  auditEvents : List AuditEvent

def getBuildForWorker (buildId workerId : String) (s : HeartbeatState) : Option LeasedBuild :=
  (s.builds buildId).filter fun b => b.workerId = some workerId && b.authorized

/-! ## Triggers -/

def activeWorker (workerId : String) (s : HeartbeatState) : Bool :=
  (s.workers workerId).any (·.status = .active)

/-- `helper-shell-analysis-v1` of the active worker of a build. -/
def helperWorker (s : HeartbeatState) (b : LeasedBuild) : Bool :=
  (b.workerId.bind s.workers).any fun w => w.status = .active && w.capabilities.contains .helperShellAnalysisV1

/-- The active worker of a build has its architecture and all that a preserved recipe takes. -/
def preservedWorker (s : HeartbeatState) (b : LeasedBuild) : Bool :=
  (b.workerId.bind s.workers).any fun w => w.status = .active && w.architecture = b.architecture &&
    [.preservedRecipeV1, .multiOutputV2, .frozenInputsV1, .runtimeAnalysisV1].all w.capabilities.contains

/-- The triggers before an update of `builds` that leaves it leased. -/
def refusedLease (s : HeartbeatState) (b : LeasedBuild) : Option String :=
  if b.helperAnalysis && !helperWorker s b then some "Selected helper analysis requires a capable native worker"
  else if b.lockChanged then some "frozen input review or selection changed"
  else if b.preservedRevision && !(b.preservedLeasable && preservedWorker s b) then
    some "Preserved recipe builds require current sources and a capable frozen-input worker"
  else none

def requeued (b : LeasedBuild) : LeasedBuild :=
  { b with status := .queued, workerId := none, leaseToken := none, leaseExpiresAt := none }

/-- `helper_analysis_worker_fence`, after the capabilities of a worker were written. -/
def helperFence (workerId : String) (capabilities : List WorkerCapability) (b : LeasedBuild) : LeasedBuild :=
  if !capabilities.contains .helperShellAnalysisV1 && b.workerId = some workerId && b.status = .leased && b.helperAnalysis then
    requeued b
  else b

/-- `preserved_worker_fence`, after the capabilities of a worker were written. -/
def preservedFence (s : HeartbeatState) (b : LeasedBuild) : LeasedBuild :=
  if b.status = .leased && b.preservedInputs && (!b.preservedCurrent || !preservedWorker s b) then
    { requeued b with preservedInputs := false }
  else b

/-! ## The heartbeat -/

/-- The update finds the lease, live at the time it is given. -/
def leaseMatches (workerId token : String) (timestamp : Int) (b : LeasedBuild) : Bool :=
  b.workerId = some workerId && b.leaseToken = some token && b.status = .leased && b.leaseExpiresAt.any (· > timestamp)

def renewLease (buildId workerId token : String) (timestamp : Int) : Sql.Statement HeartbeatState := fun s _ =>
  match s.builds buildId with
  | none => .ok (s, 0)
  | some b =>
    if leaseMatches workerId token timestamp b && activeWorker workerId s then
      match refusedLease s b with
      | some message => .error ⟨message⟩
      | none =>
        let renewed := { b with leaseExpiresAt := some (timestamp + leaseSeconds) }
        .ok ({ s with builds := fun id => if id = buildId then some renewed else s.builds id }, 1)
    else .ok (s, 0)

def updateWorker (workerId : String) (f : WorkerRow → WorkerRow) (s : HeartbeatState) : HeartbeatState :=
  { s with workers := fun id => if id = workerId then (s.workers id).map f else s.workers id }

def takeMetadata (m : WorkerMetadata) (timestamp : Int) (w : WorkerRow) : WorkerRow :=
  { w with lastSeenAt := some timestamp, daemonVersion := some m.version, runtime := some m.runtime,
           capabilities := m.capabilities }

def seeWorker (workerId : String) (metadata : Option WorkerMetadata) (timestamp : Int) : Sql.Statement HeartbeatState :=
  fun s n =>
    if n = 1 && activeWorker workerId s then
      match metadata with
      | none => .ok (updateWorker workerId (fun w => { w with lastSeenAt := some timestamp }) s, 1)
      | some m =>
        let seen := updateWorker workerId (takeMetadata m timestamp) s
        .ok ({ seen with builds := fun id =>
          (seen.builds id).map fun b => preservedFence seen (helperFence workerId m.capabilities b) }, 1)
    else .ok (s, 0)

def auditWhen (p : Bool) (event : AuditEvent) : Sql.Statement HeartbeatState := fun s n =>
  if n = 1 && p then .ok ({ s with auditEvents := s.auditEvents ++ [event] }, 1) else .ok (s, 0)

def metadataDetail (m : WorkerMetadata) : List (JsString × Json JsString) :=
  [(units "version", .str (units m.version)), (units "runtime", .str (units m.runtime.text)),
    (units "capabilities", .arr (m.capabilities.map fun c => .str (units c.text)))]

/-- The row of the worker as it was when it signed the request. -/
def workerMetadataChanged (worker : WorkerRow) (m : WorkerMetadata) : Bool :=
  worker.daemonVersion ≠ some m.version || worker.runtime ≠ some m.runtime || worker.capabilities ≠ m.capabilities

def heartbeatBatch (worker : WorkerRow) (buildId token : String) (metadata : Option WorkerMetadata) (timestamp : Int) :
    List (Sql.Statement HeartbeatState) :=
  [ renewLease buildId worker.id token timestamp,
    seeWorker worker.id metadata timestamp,
    auditWhen true ⟨s!"worker:{worker.id}", "worker.job_heartbeat", buildId,
      .obj ((units "leaseExpiresAt", .num (.ofNat (timestamp + leaseSeconds).toNat)) ::
        ((metadata.map metadataDetail).getD [])), timestamp⟩ ] ++
  (match metadata with
    | none => []
    | some m =>
      [auditWhen (workerMetadataChanged worker m) ⟨s!"worker:{worker.id}", "worker.metadata_updated", worker.id,
        .obj (metadataDetail m), timestamp⟩])

structure HeartbeatAnswer where
  leaseExpiresAt : Option Int
  cancel : Bool

def requireLeaseToken (token : String) : Except WorkerProtocolError Unit :=
  if token = "" ∨ (units token).length > 128 ∨ (token.toList.any fun c => c.toNat ≤ 0x1F || c.toNat = 0x7F) = true then
    .error ⟨400, "Invalid leaseToken"⟩
  else .ok ()

def databaseFailure : WorkerProtocolError := ⟨500, "Worker protocol storage failure"⟩

def heartbeatJob (worker : WorkerRow) (buildId token : String) (metadata : Option WorkerMetadata) :
    Prog HeartbeatState WorkerProtocolError HeartbeatAnswer := do
  let _ ← ofExcept (requireLeaseToken token)
  let found ← read (getBuildForWorker buildId worker.id)
  match found with
  | none => fail ⟨409, "Worker lease is fenced"⟩
  | some build =>
    if build.leaseToken ≠ some token then fail ⟨409, "Worker lease is fenced"⟩
    else if build.status = .cancelled then pure ⟨none, true⟩
    else
      let checked ← read (·.clock)
      if build.status ≠ .leased ∨ build.leaseExpiresAt.any (· > checked) = false then
        fail ⟨409, "Worker lease is expired"⟩
      else
        let timestamp ← read (·.clock)
        let _ ← Sql.run (heartbeatBatch worker buildId token metadata timestamp) fun _ => databaseFailure
        pure ⟨some (timestamp + leaseSeconds), false⟩

/-! ## What the batch does -/

section
variable {worker : WorkerRow} {buildId token : String} {metadata : Option WorkerMetadata} {timestamp : Int}

theorem auditWhen_ok (p : Bool) (event : AuditEvent) (s : HeartbeatState) (n : Nat) : ∃ s' k,
    auditWhen p event s n = .ok (s', k) ∧ s'.builds = s.builds := by
  unfold auditWhen
  split
  · exact ⟨_, _, rfl, rfl⟩
  · exact ⟨_, _, rfl, rfl⟩

/-- The log never raises, and leaves the builds. -/
theorem auditWhens_ok (statements : List (Sql.Statement HeartbeatState))
    (h : ∀ q ∈ statements, ∃ p event, q = auditWhen p event) (s : HeartbeatState) (n : Nat) : ∃ s' ns,
    Sql.runAll statements s n = .ok (s', ns) ∧ s'.builds = s.builds := by
  induction statements generalizing s n with
  | nil => exact ⟨s, [], rfl, rfl⟩
  | cons q rest ih =>
    obtain ⟨p, event, rfl⟩ := h q List.mem_cons_self
    obtain ⟨s₁, k, hfirst, hbuilds⟩ := auditWhen_ok p event s n
    obtain ⟨s₂, ns, hrest, hbuilds'⟩ := ih (fun q hq => h q (List.mem_cons_of_mem _ hq)) s₁ k
    exact ⟨s₂, k :: ns, Sql.runAll_cons_ok.mpr ⟨s₁, k, ns, hfirst, hrest, rfl⟩, hbuilds'.trans hbuilds⟩

theorem seeWorker_ok (s : HeartbeatState) (n : Nat) : ∃ s' k, seeWorker worker.id metadata timestamp s n = .ok (s', k) := by
  unfold seeWorker
  split
  · split
    · exact ⟨_, _, rfl⟩
    · exact ⟨_, _, rfl⟩
  · exact ⟨_, _, rfl⟩

/-- The builds after the batch are those that its first two statements leave. -/
theorem batch_builds {s s₁ : HeartbeatState} {k : Nat} (h : renewLease buildId worker.id token timestamp s 0 = .ok (s₁, k)) :
    ∃ ns s' s₂ k', seeWorker worker.id metadata timestamp s₁ k = .ok (s₂, k') ∧ s'.builds = s₂.builds ∧
      Sql.batch (heartbeatBatch worker buildId token metadata timestamp) s = (.ok ns, s') := by
  obtain ⟨s₂, k', hsee⟩ := @seeWorker_ok worker metadata timestamp s₁ k
  have hlog : ∃ log, heartbeatBatch worker buildId token metadata timestamp = renewLease buildId worker.id token timestamp ::
      seeWorker worker.id metadata timestamp :: log ∧ ∀ q ∈ log, ∃ p event, q = auditWhen p event := by
    refine ⟨_, rfl, fun q hq => ?_⟩
    rcases List.mem_cons.mp hq with rfl | hq
    · exact ⟨_, _, rfl⟩
    · cases metadata with
      | none => cases hq
      | some m => exact ⟨_, _, List.mem_singleton.mp hq⟩
  obtain ⟨log, hbatch, haudits⟩ := hlog
  obtain ⟨s', ns, hrest, hbuilds⟩ := auditWhens_ok log haudits s₂ k'
  refine ⟨k :: k' :: ns, s', s₂, k', hsee, hbuilds, ?_⟩
  have hrun := Sql.runAll_cons_ok.mpr ⟨s₁, k, _, h, Sql.runAll_cons_ok.mpr ⟨s₂, k', ns, hsee, hrest, rfl⟩, rfl⟩
  rw [Sql.batch, hbatch, hrun]

theorem batch_raises {s : HeartbeatState} {raised : Sql.Raised}
    (h : renewLease buildId worker.id token timestamp s 0 = .error raised) :
    Sql.batch (heartbeatBatch worker buildId token metadata timestamp) s = (.error raised, s) := by
  have hrun : Sql.runAll (heartbeatBatch worker buildId token metadata timestamp) s 0 = .error raised := by
    change Sql.runAll (renewLease buildId worker.id token timestamp :: _) s 0 = _
    rw [Sql.runAll, h]
    rfl
  rw [Sql.batch, hrun]

/-- The metadata takes the lease away from the build it comes with. -/
def fenced (worker : WorkerRow) (m : WorkerMetadata) (timestamp : Int) (s : HeartbeatState) (b : LeasedBuild) : Bool :=
  (b.helperAnalysis && !m.capabilities.contains .helperShellAnalysisV1) ||
    (b.preservedInputs && (!b.preservedCurrent ||
      !preservedWorker (updateWorker worker.id (takeMetadata m timestamp) s) b))

/-- The triggers leave a build that is not fenced, and take the token of one that is. -/
theorem fences_spec {m : WorkerMetadata} {s : HeartbeatState} {b : LeasedBuild} (hworker : b.workerId = some worker.id)
    (hleased : b.status = .leased) :
    preservedFence (updateWorker worker.id (takeMetadata m timestamp) s) (helperFence worker.id m.capabilities b) = b ∧
        fenced worker m timestamp s b = false ∨
      (preservedFence (updateWorker worker.id (takeMetadata m timestamp) s)
        (helperFence worker.id m.capabilities b)).leaseToken = none ∧ fenced worker m timestamp s b = true := by
  cases hhelper : b.helperAnalysis && !m.capabilities.contains .helperShellAnalysisV1 with
  | true =>
    right
    have hfence : helperFence worker.id m.capabilities b = requeued b := by
      rw [Bool.and_comm] at hhelper
      have hboth := (Bool.and_eq_true _ _).mp hhelper
      rw [helperFence, hboth.1, hboth.2, decide_eq_true hworker, decide_eq_true hleased]
      rfl
    rw [hfence, preservedFence, if_neg (by simp [requeued])]
    exact ⟨rfl, by rw [fenced, hhelper, Bool.true_or]⟩
  | false =>
    have hfence : helperFence worker.id m.capabilities b = b := by
      rw [helperFence, if_neg]
      intro h
      simp only [Bool.and_eq_true] at h
      rw [h.1.1.1, h.2] at hhelper
      cases hhelper
    rw [hfence, fenced, hhelper, Bool.false_or, preservedFence]
    cases hpreserved : b.preservedInputs && (!b.preservedCurrent ||
        !preservedWorker (updateWorker worker.id (takeMetadata m timestamp) s) b) with
    | true =>
      right
      rw [if_pos (by rw [Bool.and_assoc, hpreserved]; simp [hleased])]
      exact ⟨rfl, rfl⟩
    | false =>
      left
      rw [if_neg (by rw [Bool.and_assoc, hpreserved]; simp)]
      exact ⟨rfl, rfl⟩

end

/-! ## The call among others -/

/-- The row of the build holds the lease of the worker until a given time. -/
def HoldsLease (buildId workerId token : String) (expires : Int) (s : HeartbeatState) : Prop :=
  ∃ b, s.builds buildId = some b ∧ b.workerId = some workerId ∧ b.leaseToken = some token ∧ b.leaseExpiresAt = some expires

/-- The lease is live in the row of the build. -/
def LeaseLive (buildId workerId token : String) (timestamp : Int) (s : HeartbeatState) : Prop :=
  ∃ b, s.builds buildId = some b ∧ leaseMatches workerId token timestamp b = true

/-- An answer with an expiry is of a lease that the batch found live, and that the row holds
until then as the batch leaves it. -/
def Honest (worker : WorkerRow) (buildId token : String) (metadata : Option WorkerMetadata) (found : Nat → HeartbeatState) :
    Prop :=
  ∀ expires, (heartbeatJob worker buildId token metadata).answer found = .ok ⟨some expires, false⟩ →
    LeaseLive buildId worker.id token (found 2).clock (found 3) ∧
      ∀ move ∈ ((heartbeatJob worker buildId token metadata).moves found).getLast?,
        HoldsLease buildId worker.id token expires move.2

/-- The call reaches its batch: the rows it reads hold the lease, live by the clock it reads. -/
def Checked (worker : WorkerRow) (buildId token : String) (found : Nat → HeartbeatState) : Prop :=
  requireLeaseToken token = .ok () ∧ ∃ build, getBuildForWorker buildId worker.id (found 0) = some build ∧
    build.leaseToken = some token ∧ build.status = .leased ∧ build.leaseExpiresAt.any (· > (found 1).clock) = true

/-- The batch finds the lease live, and either renews it and leaves it (or a trigger refuses
the renewal), or the worker is no longer active and the row has the new expiry already. -/
def Renewable (worker : WorkerRow) (buildId token : String) (metadata : Option WorkerMetadata) (timestamp : Int)
    (s : HeartbeatState) : Prop :=
  ∃ b, s.builds buildId = some b ∧ leaseMatches worker.id token timestamp b = true ∧
    if activeWorker worker.id s then (refusedLease s b).isSome ∨ ∀ m ∈ metadata, fenced worker m timestamp s b = false
    else b.leaseExpiresAt = some (timestamp + leaseSeconds)

section
variable {worker : WorkerRow} {buildId token : String} {metadata : Option WorkerMetadata} {timestamp : Int}

theorem leaseMatches_iff {workerId : String} {b : LeasedBuild} : leaseMatches workerId token timestamp b = true ↔
    b.workerId = some workerId ∧ b.leaseToken = some token ∧ b.status = .leased ∧
      b.leaseExpiresAt.any (· > timestamp) = true := by
  simp [leaseMatches, and_assoc]

/-- What the renewal leaves of the row. -/
def renewed (timestamp : Int) (b : LeasedBuild) : LeasedBuild := { b with leaseExpiresAt := some (timestamp + leaseSeconds) }

/-- After a renewal the row holds the lease unless the metadata takes it away. -/
theorem seeWorker_holds {s s₁ s₂ : HeartbeatState} {b : LeasedBuild} {k : Nat} (hworkers : s₁.workers = s.workers)
    (hb : s₁.builds buildId = some (renewed timestamp b)) (hlease : leaseMatches worker.id token timestamp b = true)
    (hactive : activeWorker worker.id s = true) (h : seeWorker worker.id metadata timestamp s₁ 1 = .ok (s₂, k)) :
    HoldsLease buildId worker.id token (timestamp + leaseSeconds) s₂ ↔
      ∀ m ∈ metadata, fenced worker m timestamp s b = false := by
  obtain ⟨hworker, htoken, hleased, -⟩ := leaseMatches_iff.mp hlease
  have hactive₁ : activeWorker worker.id s₁ = true := by rw [activeWorker, hworkers, ← activeWorker, hactive]
  unfold seeWorker at h
  rw [hactive₁] at h
  cases metadata with
  | none =>
    cases h
    exact iff_of_true ⟨_, hb, hworker, htoken, rfl⟩ fun m hm => nomatch hm
  | some m =>
    have hfence := @fences_spec worker timestamp m s₁ (renewed timestamp b) hworker hleased
    have hsame : fenced worker m timestamp s₁ (renewed timestamp b) = fenced worker m timestamp s b := by
      unfold fenced preservedWorker updateWorker
      rw [hworkers]
      rfl
    rw [hsame] at hfence
    cases h
    have hrow : (updateWorker worker.id (takeMetadata m timestamp) s₁).builds buildId = some (renewed timestamp b) := hb
    rcases hfence with ⟨hkeep, hnot⟩ | ⟨htaken, hyes⟩
    · refine iff_of_true ⟨renewed timestamp b, ?_, hworker, htoken, rfl⟩ fun m' hm' => ?_
      · simp only [hrow, Option.map_some, hkeep]
      · cases hm'
        exact hnot
    · refine iff_of_false ?_ fun hall => ?_
      · rintro ⟨b', hb', -, htoken', -⟩
        simp only [hrow, Option.map_some, Option.some.injEq] at hb'
        rw [← hb', htaken] at htoken'
        cases htoken'
      · rw [hall m rfl] at hyes
        cases hyes

/-- The batch and what its first update found. -/
theorem batch_spec (s : HeartbeatState) :
    (∃ raised, Sql.batch (heartbeatBatch worker buildId token metadata timestamp) s = (.error raised, s) ∧
      Renewable worker buildId token metadata timestamp s) ∨
    ∃ ns s', Sql.batch (heartbeatBatch worker buildId token metadata timestamp) s = (.ok ns, s') ∧
      (LeaseLive buildId worker.id token timestamp s ∧ HoldsLease buildId worker.id token (timestamp + leaseSeconds) s' ↔
        Renewable worker buildId token metadata timestamp s) := by
  by_cases hmatch : ∃ b, s.builds buildId = some b ∧ leaseMatches worker.id token timestamp b = true ∧
      activeWorker worker.id s = true
  · obtain ⟨b, hb, hlease, hactive⟩ := hmatch
    cases hrefused : refusedLease s b with
    | some message =>
      left
      refine ⟨⟨message⟩, batch_raises ?_, b, hb, hlease, ?_⟩
      · simp [renewLease, hb, hlease, hactive, hrefused]
      · rw [if_pos hactive, hrefused]
        exact .inl rfl
    | none =>
      right
      obtain ⟨s₁, hrenew, hworkers, hrow⟩ : ∃ s₁, renewLease buildId worker.id token timestamp s 0 = .ok (s₁, 1) ∧
          s₁.workers = s.workers ∧ s₁.builds buildId = some (renewed timestamp b) := by
        refine ⟨{ s with builds := fun id => if id = buildId then some (renewed timestamp b) else s.builds id }, ?_, rfl, ?_⟩
        · simp [renewLease, hb, hlease, hactive, hrefused, renewed]
        · simp
      obtain ⟨ns, s', s₂, k, hsee, hbuilds, hbatch⟩ := @batch_builds worker buildId token metadata timestamp _ _ _ hrenew
      refine ⟨ns, s', hbatch, ?_⟩
      have hholds := seeWorker_holds hworkers hrow hlease hactive hsee
      rw [HoldsLease, hbuilds, ← HoldsLease, hholds]
      constructor
      · rintro ⟨-, hall⟩
        exact ⟨b, hb, hlease, by rw [if_pos hactive]; exact .inr hall⟩
      · rintro ⟨b', hb', -, hrest⟩
        rw [hb] at hb'
        obtain rfl := Option.some.inj hb'
        rw [if_pos hactive, hrefused] at hrest
        exact ⟨⟨b, hb, hlease⟩, hrest.resolve_left (by simp)⟩
  · right
    have hrenew : renewLease buildId worker.id token timestamp s 0 = .ok (s, 0) := by
      unfold renewLease
      split
      · rfl
      · next b hb =>
        rw [if_neg]
        intro h
        obtain ⟨hlease, hactive⟩ := (Bool.and_eq_true _ _).mp h
        exact hmatch ⟨b, hb, hlease, hactive⟩
    obtain ⟨ns, s', s₂, k, hsee, hbuilds, hbatch⟩ := @batch_builds worker buildId token metadata timestamp _ _ _ hrenew
    refine ⟨ns, s', hbatch, ?_⟩
    have hs₂ : s₂ = s := by
      have hidle : seeWorker worker.id metadata timestamp s 0 = .ok (s, 0) := by simp [seeWorker]
      rw [hidle] at hsee
      cases hsee
      rfl
    rw [HoldsLease, hbuilds, ← HoldsLease, hs₂]
    constructor
    · rintro ⟨⟨b, hb, hlease⟩, b', hb', -, -, hexpires⟩
      rw [hb] at hb'
      obtain rfl := Option.some.inj hb'
      have hinactive : ¬activeWorker worker.id s = true := fun hactive => hmatch ⟨b, hb, hlease, hactive⟩
      exact ⟨b, hb, hlease, by rw [if_neg hinactive]; exact hexpires⟩
    · rintro ⟨b, hb, hlease, hrest⟩
      have hinactive : ¬activeWorker worker.id s = true := fun hactive => hmatch ⟨b, hb, hlease, hactive⟩
      rw [if_neg hinactive] at hrest
      obtain ⟨hworker, htoken, -, -⟩ := leaseMatches_iff.mp hlease
      exact ⟨⟨b, hb, hlease⟩, b, hb, hworker, htoken, hrest⟩

end

/-- What the call does once its check has found the lease. -/
def renewChecked (worker : WorkerRow) (buildId token : String) (metadata : Option WorkerMetadata) :
    Prog HeartbeatState WorkerProtocolError HeartbeatAnswer := do
  let timestamp ← read (·.clock)
  let _ ← Sql.run (heartbeatBatch worker buildId token metadata timestamp) fun _ => databaseFailure
  pure ⟨some (timestamp + leaseSeconds), false⟩

section
variable {worker : WorkerRow} {buildId token : String} {metadata : Option WorkerMetadata} {found : Nat → HeartbeatState}

/-- Whether the answer of a program with an expiry is of a lease that a state held live, and holds until then. -/
def HonestFrom (worker : WorkerRow) (buildId token : String) (timestamp : Int) (s : HeartbeatState)
    (p : Prog HeartbeatState WorkerProtocolError HeartbeatAnswer) (found : Nat → HeartbeatState) : Prop :=
  ∀ expires, p.answer found = .ok ⟨some expires, false⟩ → LeaseLive buildId worker.id token timestamp s ∧
    ∀ move ∈ (p.moves found).getLast?, HoldsLease buildId worker.id token expires move.2

theorem honestFrom_fail {timestamp : Int} {s : HeartbeatState} (e : WorkerProtocolError) :
    HonestFrom worker buildId token timestamp s (fail e) found := fun _ h => nomatch h

/-- A read before other steps is not the last move. -/
theorem honestFrom_read {α : Type} {timestamp : Int} {s : HeartbeatState} {view : HeartbeatState → α}
    {f : α → Prog HeartbeatState WorkerProtocolError HeartbeatAnswer}
    (hmoves : ((f (view (found 0))).moves fun n => found (n + 1)) ≠ [] ∨
      ∀ expires, ((f (view (found 0))).answer fun n => found (n + 1)) ≠ .ok ⟨some expires, false⟩) :
    HonestFrom worker buildId token timestamp s (read view >>= f) found ↔
      HonestFrom worker buildId token timestamp s (f (view (found 0))) fun n => found (n + 1) := by
  unfold HonestFrom
  rw [answer_read_bind, moves_read_bind]
  rcases hmoves with hmoves | hanswer
  · obtain ⟨move, rest, hcons⟩ := List.exists_cons_of_ne_nil hmoves
    rw [hcons, List.getLast?_cons_cons]
  · exact iff_of_true (fun e h => absurd h (hanswer e)) fun e h => absurd h (hanswer e)

theorem renewChecked_moves : ((renewChecked worker buildId token metadata).moves found) ≠ [] := by
  rw [renewChecked, moves_read_bind]
  exact List.cons_ne_nil _ _

theorem renewChecked_honest : HonestFrom worker buildId token (found 0).clock (found 1)
    (renewChecked worker buildId token metadata) found ↔ Renewable worker buildId token metadata (found 0).clock (found 1) := by
  rw [renewChecked, honestFrom_read (.inl (by rw [Sql.moves_run_bind]; exact List.cons_ne_nil _ _))]
  unfold HonestFrom
  rw [Sql.answer_run_bind, Sql.moves_run_bind, Nat.zero_add]
  rcases @batch_spec worker buildId token metadata (found 0).clock (found 1) with ⟨raised, hbatch, hrenewable⟩ | ⟨ns, s', hbatch, hiff⟩
  · rw [hbatch]
    exact iff_of_true (fun _ h => nomatch h) hrenewable
  · rw [hbatch, ← hiff]
    constructor
    · intro h
      obtain ⟨hlive, hlast⟩ := h _ rfl
      exact ⟨hlive, hlast _ rfl⟩
    · rintro ⟨hlive, hholds⟩ expires h
      cases h
      refine ⟨hlive, fun move hmem => ?_⟩
      cases hmem
      exact hholds

end

/-- The answer is honest exactly when the batch, if the call reaches it, finds a lease that it can renew. -/
theorem heartbeat_honest (worker : WorkerRow) (buildId token : String) (metadata : Option WorkerMetadata)
    (found : Nat → HeartbeatState) : Honest worker buildId token metadata found ↔
      (Checked worker buildId token found → Renewable worker buildId token metadata (found 2).clock (found 3)) := by
  have hjob : heartbeatJob worker buildId token metadata = (do
      let _ ← ofExcept (requireLeaseToken token)
      let found ← read (getBuildForWorker buildId worker.id)
      match found with
      | none => fail ⟨409, "Worker lease is fenced"⟩
      | some build =>
        if build.leaseToken ≠ some token then fail ⟨409, "Worker lease is fenced"⟩
        else if build.status = .cancelled then pure ⟨none, true⟩
        else
          let checked ← read (·.clock)
          if build.status ≠ .leased ∨ build.leaseExpiresAt.any (· > checked) = false then
            fail ⟨409, "Worker lease is expired"⟩
          else renewChecked worker buildId token metadata) := rfl
  change HonestFrom worker buildId token (found 2).clock (found 3) (heartbeatJob worker buildId token metadata) found ↔ _
  rw [hjob]
  cases htoken : requireLeaseToken token with
  | error e => exact iff_of_true (honestFrom_fail e) fun h => nomatch htoken.symm.trans h.1
  | ok _ =>
    rw [ofExcept_ok_bind]
    cases hfound : getBuildForWorker buildId worker.id (found 0) with
    | none =>
      refine iff_of_true ?_ fun h => ?_
      · rw [honestFrom_read (.inr fun _ => by rw [hfound]; exact nofun), hfound]
        exact honestFrom_fail _
      · obtain ⟨-, b, hb, -⟩ := h
        exact nomatch hfound.symm.trans hb
    | some build =>
      by_cases hok : build.leaseToken = some token ∧ build.status = .leased ∧
          build.leaseExpiresAt.any (· > (found 1).clock) = true
      · obtain ⟨hbtoken, hleased, hlive⟩ := hok
        have hfail : ¬(False ∨ build.leaseExpiresAt.any (· > (found (0 + 1)).clock) = false) := by
          simp [hlive]
        rw [honestFrom_read (.inl ?first), hfound]
        · simp only [hbtoken, hleased, ne_eq, not_true, if_false, reduceCtorEq]
          rw [honestFrom_read (.inl ?second), if_neg hfail]
          · refine (@renewChecked_honest worker buildId token metadata fun n => found (n + 1 + 1)).trans ?_
            exact ⟨fun h _ => h, fun h => h ⟨htoken, build, hfound, hbtoken, hleased, hlive⟩⟩
          case second =>
            rw [if_neg hfail]
            exact renewChecked_moves
        case first =>
          rw [hfound]
          simp only [hbtoken, hleased, ne_eq, not_true, if_false, reduceCtorEq]
          rw [moves_read_bind]
          exact List.cons_ne_nil _ _
      · refine iff_of_true (fun expires h => ?_) fun h => ?_
        · exfalso
          rw [answer_read_bind, hfound] at h
          simp only at h
          split_ifs at h with hbtoken hcancelled
          · cases h
          · cases h
          · rw [answer_read_bind] at h
            rw [not_ne_iff] at hbtoken
            by_cases hbad : build.status ≠ .leased ∨ build.leaseExpiresAt.any (· > (found (0 + 1)).clock) = false
            · rw [if_pos hbad] at h
              cases h
            · rw [not_or, not_ne_iff, Bool.not_eq_false] at hbad
              exact hok ⟨hbtoken, hbad.1, hbad.2⟩
        · obtain ⟨-, b, hb, hbtoken, hleased, hlive⟩ := h
          rw [hfound] at hb
          obtain rfl := Option.some.inj hb
          exact absurd ⟨hbtoken, hleased, hlive⟩ hok

/-! ## A worker revoked in between -/

def leasedBuild : LeasedBuild where
  architecture := .x86_64
  status := .leased
  workerId := some "worker"
  leaseToken := some "token"
  leaseExpiresAt := some 100
  preservedInputs := false
  authorized := true
  helperAnalysis := false
  lockChanged := false
  preservedRevision := false
  preservedLeasable := false
  preservedCurrent := false

def activeRow : WorkerRow where
  id := "worker"
  status := .active
  architecture := .x86_64
  lastSeenAt := none
  daemonVersion := none
  runtime := none
  capabilities := []

/-- The worker is revoked, and its build queued again, after the call has checked the lease. -/
def revokedBetween (n : Nat) : HeartbeatState :=
  if n < 3 then ⟨1, fun _ => some leasedBuild, fun _ => some activeRow, []⟩
  else ⟨1, fun _ => some (requeued leasedBuild), fun _ => some { activeRow with status := .revoked }, []⟩

/-- The lost lease is answered as renewed. -/
theorem revoked_answered : (heartbeatJob activeRow "build" "token" none).answer revokedBetween = .ok ⟨some 181, false⟩ ∧
    ¬LeaseLive "build" "worker" "token" (revokedBetween 2).clock (revokedBetween 3) ∧
    ∃ move ∈ ((heartbeatJob activeRow "build" "token" none).moves revokedBetween).getLast?,
      ¬HoldsLease "build" "worker" "token" 181 move.2 := by
  have hrow : ∀ s : HeartbeatState, s.builds "build" = some (requeued leasedBuild) →
      ¬∃ b, s.builds "build" = some b ∧ b.leaseToken = some "token" := by
    rintro s hs ⟨b, hb, htoken⟩
    rw [hs] at hb
    obtain rfl := Option.some.inj hb
    cases htoken
  refine ⟨rfl, ?_, _, rfl, ?_⟩
  · rintro ⟨b, hb, hlease⟩
    exact hrow (revokedBetween 3) rfl ⟨b, hb, (leaseMatches_iff.mp hlease).2.1⟩
  · rintro ⟨b, hb, -, htoken, -⟩
    exact hrow _ rfl ⟨b, hb, htoken⟩

end Omapkg.Server.Heartbeat
