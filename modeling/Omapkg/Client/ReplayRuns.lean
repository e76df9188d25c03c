import Omapkg.Client.Channels
import Omapkg.Client.StagedConfig
/-!
# Replay over whole runs

Wherever `stage`, `apply` and their recovery stop, and whatever is applied in
other channels: the counters of a channel only rise, and a transaction is
applied only above every sequence that was recorded for its channel before.
-/

namespace Omapkg.Client

open Utf Relation Fallible

/-! ## Counters -/

/-- No counter of `s` is above that of `s'`. -/
structure LocalState.Counted (s s' : LocalState) : Prop where
  sequence : s.sequence ≤ s'.sequence
  systemSequence : s.systemSequence ≤ s'.systemSequence
  oprSequence : s.oprSequence ≤ s'.oprSequence

/-- In no channel is a counter of `s` above that of `s'`. -/
def LocalState.Behind (s s' : LocalState) : Prop :=
  ∀ c, isChannel c = true → (stateForChannel s c).Counted (stateForChannel s' c)

/-- A state with nothing in it, or in which no channel is only the flat one. -/
def LocalState.Whole (s : LocalState) : Prop := s = .zero ∨ ∀ c, isChannel c = true → ¬s.OnlyFlat c

theorem LocalState.Behind.refl (s : LocalState) : s.Behind s := fun _ _ => ⟨le_rfl, le_rfl, le_rfl⟩

theorem LocalState.Behind.trans {s s' s'' : LocalState} (h : s.Behind s') (h' : s'.Behind s'') : s.Behind s'' :=
  fun c hc => ⟨(h c hc).sequence.trans (h' c hc).sequence, (h c hc).systemSequence.trans (h' c hc).systemSequence,
    (h c hc).oprSequence.trans (h' c hc).oprSequence⟩

theorem stateForChannel_zero (c : String) : stateForChannel .zero c = .zero := by
  simp [stateForChannel, LocalState.zero]

section
variable {s selected : LocalState} {c : String}

theorem saved_behind (hs : s.Whole) (hc : isChannel c = true) (h : (stateForChannel s c).Counted selected) :
    s.Behind (saveChannelState s c selected) := by
  intro c' hc'
  by_cases heq : c' = c
  · subst heq
    rw [stateForChannel_saved s selected (isChannel_ne hc)]
    exact ⟨h.sequence, h.systemSequence, h.oprSequence⟩
  · have hsame : stateForChannel (saveChannelState s c selected) c' = stateForChannel s c' := by
      rcases hs with rfl | hs
      · rw [stateForChannel_other _ selected (isChannel_ne hc') (isChannel_ne hc) heq, stateForChannel_zero]
        rfl
      · exact stateForChannel_unchanged (isChannel_ne hc') (isChannel_ne hc) heq selected (hs c' hc')
    rw [hsame]
    exact ⟨le_rfl, le_rfl, le_rfl⟩

theorem saved_whole (hc : isChannel c = true) : (saveChannelState s c selected).Whole := by
  right
  rintro c' - ⟨hnone, hflat | ⟨hempty, -⟩⟩
  · rw [← hflat, saveChannelState, lookup_setKey_self] at hnone
    exact absurd hnone (Option.some_ne_none _)
  · exact isChannel_ne hc hempty

/-- Where a channel has no state yet, nothing was counted in it. -/
theorem stateForChannel_unversioned {file : Option Bytes} (hs : readState file = .ok s)
    (h : (stateForChannel s c).schemaVersion = 0) : (stateForChannel s c).sequence = 0 := by
  cases file with
  | none =>
    obtain rfl := Except.ok.inj hs
    rw [stateForChannel_zero]
    rfl
  | some data =>
    unfold stateForChannel at h ⊢
    split at h
    · exact absurd h (by simp [localStateFromChannel])
    · split_ifs at h ⊢
      · exact absurd (h.symm.trans (readState_valid hs).version) (by decide)
      · rfl

theorem validateFreshness_above {tx : Transaction} {allowed : Bool} (h : validateFreshness s tx allowed = .ok ())
    (hs : s.schemaVersion = 0 → s.sequence = 0) (ht : tx.sequence ≠ 0) : s.sequence < tx.sequence := by
  unfold validateFreshness at h
  split at h
  · have := hs ‹_›
    omega
  · obtain ⟨hnewer, -⟩ := guard_ok.mp (guard_ok.mp h).2
    exact not_le.mp hnewer

end

/-! ## Transactions that were checked -/

structure Transaction.Checked (tx : Transaction) (digest : String) : Prop where
  digest : isSha256 digest = true
  sequence : tx.sequence ≠ 0
  channel : isChannel tx.channel = true

theorem validateTransactionFields_checked {tx : Transaction} {digest : String}
    (h : validateTransactionFields tx digest = .ok ()) : tx.Checked digest := by
  obtain ⟨-, h⟩ := guard_ok.mp h
  obtain ⟨-, h⟩ := guard_ok.mp h
  obtain ⟨htimes, h⟩ := guard_ok.mp h
  obtain ⟨hdigest, h⟩ := guard_ok.mp h
  obtain ⟨-, h⟩ := guard_ok.mp h
  obtain ⟨hchannel, -⟩ := guard_ok.mp h
  simp only [not_or, Bool.not_eq_false] at htimes hdigest hchannel
  exact ⟨hdigest.1, htimes.2.2, hchannel⟩

section
variable {literal : List Char → Option (List Char)} {sha256 : Bytes → Hash.Digest} {client : ManifestClient} {env : Env}
  {options : TransactionOptions}

theorem resolveAt_checked {manifestUrl signatureUrl : String} {tx : Transaction}
    (h : resolveAt literal sha256 client env manifestUrl signatureUrl = .ok tx) : tx.Checked tx.digest := by
  obtain ⟨root, parsed, hparsed, hselected⟩ := resolveAt_read h
  obtain ⟨-, hselected⟩ := guard_ok.mp hselected
  obtain ⟨-, hselected⟩ := guard_ok.mp hselected
  obtain rfl := Except.ok.inj hselected
  obtain ⟨_, _, _, -, -, hfields⟩ := parseTransaction_read hparsed
  have hchecked := validateTransactionFields_checked hfields
  exact ⟨hchecked.digest, hchecked.sequence, hchecked.channel⟩

/-! ## Steps -/

/-- The state file holds `s`, and what a marker has left to install is not behind it. -/
structure Guarded (options : TransactionOptions) (d : Disk) (s : LocalState) : Prop where
  stored : readState (d.bytes options.statePath) = .ok s
  whole : s.Whole
  pending : ∀ data marker, d.bytes (markerPath options) = some data → pendingMarker options data = .ok marker →
    marker.state.Valid ∧ marker.state.Whole ∧ s.Behind marker.state

def Forward (options : TransactionOptions) (d d' : Disk) : Prop :=
  ∀ s, Guarded options d s → ∃ s', Guarded options d' s' ∧ s.Behind s'

theorem Forward.same {d d' : Disk} (hstate : d'.bytes options.statePath = d.bytes options.statePath)
    (hmarker : d'.bytes (markerPath options) = d.bytes (markerPath options)) : Forward options d d' := fun s h =>
  ⟨s, ⟨hstate ▸ h.stored, h.whole, hmarker ▸ h.pending⟩, .refl s⟩

theorem Forward.refl (d : Disk) : Forward options d d := .same rfl rfl

theorem Forward.steps {d d' : Disk} (h : ReflTransGen (Forward options) d d') : Forward options d d' := by
  induction h with
  | refl => exact .refl d
  | tail _ hstep ih =>
    intro s hs
    obtain ⟨s', hs', hbehind⟩ := ih s hs
    obtain ⟨s'', hs'', hbehind'⟩ := hstep s' hs'
    exact ⟨s'', hs'', hbehind.trans hbehind'⟩

theorem Forward.write {d : Disk} {p : String} (file : File) (hp : p ≠ options.statePath ∧ p ≠ markerPath options) :
    Forward options d (d.write p file) :=
  .same (Disk.bytes_write_ne _ hp.1.symm _) (Disk.bytes_write_ne _ hp.2.symm _)

theorem Forward.remove {d : Disk} {p : String} (hp : p ≠ options.statePath ∧ p ≠ markerPath options) :
    Forward options d (d.remove p) :=
  .same (Disk.bytes_remove_ne _ hp.1.symm) (Disk.bytes_remove_ne _ hp.2.symm)

/-- The state of the marker replaces the one it is not behind. -/
theorem Forward.install {d : Disk} {data : Bytes} {marker : CommitMarker} {mode : Nat}
    (hd : d.bytes (markerPath options) = some data) (hm : pendingMarker options data = .ok marker) :
    Forward options d (d.write options.statePath ⟨marshal localStateCodec marker.state, mode⟩) := by
  intro s hs
  obtain ⟨hvalid, hwhole, hbehind⟩ := hs.pending data marker hd hm
  refine ⟨marker.state, ⟨?_, hwhole, fun data' marker' hd' hm' => ?_⟩, hbehind⟩
  · rw [Disk.bytes_write_self]
    exact readState_marshal hvalid
  · rw [Disk.bytes_write_ne _ (markerPath_ne options), hd] at hd'
    obtain rfl := Option.some.inj hd'
    obtain rfl := Except.ok.inj (hm.symm.trans hm')
    exact ⟨hvalid, hwhole, .refl _⟩

theorem Forward.clear (d : Disk) : Forward options d (d.remove (markerPath options)) := by
  intro s hs
  refine ⟨s, ⟨?_, hs.whole, fun data _ hd => ?_⟩, .refl s⟩
  · rw [Disk.bytes_remove_ne _ (markerPath_ne options).symm]
    exact hs.stored
  · rw [Disk.bytes_remove_self] at hd
    exact absurd hd.symm (Option.some_ne_none _)

theorem installMarker_forward (ho : options.Apart) {d : Disk} {data config : Bytes} {marker : CommitMarker}
    (hd : d.bytes (markerPath options) = some data) (hm : pendingMarker options data = .ok marker) :
    Prog.Ok Eq (Forward options) (fun _ d' => d'.bytes options.statePath = some (marshal localStateCodec marker.state))
      (installMarker options marker config) d := by
  obtain ⟨-, hconfig, hstate⟩ := pendingMarker_ok hm
  unfold installMarker writeState
  rw [hconfig, hstate]
  refine Prog.ok_bind (fun _ => rfl)
    (Prog.ok_mapError (atomicWrite_ok (.write _ ⟨ho.config_state, ho.config_marker⟩))) ?_
  rintro _ d₁ rfl
  have hd₁ : (d.write options.configPath _).bytes (markerPath options) = some data :=
    (Disk.bytes_write_ne d ho.config_marker.symm ⟨config, if marker.configMode = 0 then 0o644 else marker.configMode⟩).trans hd
  refine Prog.ok_bind (fun _ => rfl) (Prog.ok_mapError (atomicWrite_ok (.install hd₁ hm))) ?_
  rintro _ d₂ rfl
  refine (removeFile_ok (.clear _)).imp ?_
  rintro _ _ rfl
  rw [Disk.bytes_remove_ne _ (markerPath_ne options).symm, Disk.bytes_write_self]

/-- Recovery goes forward, and has installed the state of the marker where there was one. -/
theorem recoverPending_forward (ho : options.Apart) (d : Disk) :
    Prog.Ok Eq (Forward options)
      (fun _ d' => ∀ data marker, d.bytes (markerPath options) = some data → pendingMarker options data = .ok marker →
        d'.bytes options.statePath = some (marshal localStateCodec marker.state))
      (recoverPending sha256 options) d := by
  refine Prog.ok_read_bind ?_
  rintro _ rfl
  refine ⟨.refl d, ?_⟩
  cases hd : d.bytes (markerPath options) with
  | none => rintro _ rfl _ _ ⟨⟩
  | some data =>
    refine Prog.ok_ofExcept_bind fun marker hm => ?_
    refine Prog.ok_bind (fun _ => rfl) (Prog.ok_mapError (readExisting_ok (.refl d))) ?_
    rintro config _ ⟨rfl, -⟩
    refine Prog.ok_ofExcept_bind fun _ _ => (installMarker_forward ho hd hm).imp ?_
    rintro _ d' hd' data' marker' hdata hm'
    obtain rfl := Option.some.inj hdata
    obtain rfl := Except.ok.inj (hm.symm.trans hm')
    exact hd'

theorem commit_forward (ho : options.Apart) {d : Disk} {metadata : StageMetadata} {mode : Nat} {stored state : LocalState}
    (hstored : readState (d.bytes options.statePath) = .ok stored) (hmode : mode < 512)
    (hnamed : metadata.stagedConfig ≠ "") (hvalid : state.Valid) (hwhole : state.Whole)
    (hbehind : stored.Whole → stored.Behind state) :
    Prog.Ok Eq (Forward options) (fun _ d' => readState (d'.bytes options.statePath) = .ok state)
      (commit sha256 options (commitMarker options metadata mode state)) d := by
  have hread := commitMarker_read options hmode hvalid.fits hnamed
  unfold commit
  generalize hdata : marshal commitMarkerCodec (commitMarker options metadata mode state) = data at hread
  have hwrite : Forward options d (d.write (markerPath options) ⟨data, 0o600⟩) := by
    intro s hs
    obtain rfl := Except.ok.inj (hs.stored.symm.trans hstored)
    refine ⟨s, ⟨?_, hs.whole, fun data' marker hd' hm => ?_⟩, .refl s⟩
    · rw [Disk.bytes_write_ne _ (markerPath_ne options).symm, hstored]
    · rw [Disk.bytes_write_self] at hd'
      obtain rfl := Option.some.inj hd'
      obtain rfl := Except.ok.inj (hread.symm.trans hm)
      exact ⟨hvalid, hwhole, hbehind hs.whole⟩
  refine Prog.ok_bind (fun _ => rfl) (Prog.ok_mapError (atomicWrite_ok hwrite)) ?_
  rintro _ d' rfl
  refine (recoverPending_forward ho _).imp fun _ d'' h => ?_
  rw [h data _ (Disk.bytes_write_self ..) hread]
  exact readState_marshal hvalid

/-- What `apply` has done when it ends well. -/
def AppliedAbove (options : TransactionOptions) (d : Disk) (tx : Transaction) (d' : Disk) : Prop :=
  (∀ s, Guarded options d s → (stateForChannel s tx.channel).sequence < tx.sequence) ∧
    ∃ s', readState (d'.bytes options.statePath) = .ok s' ∧ (stateForChannel s' tx.channel).sequence = tx.sequence

theorem readConfig_bound {G : Disk → Disk → Prop} {path : String} {d : Disk} (hG : G d d) :
    Prog.Ok Eq G (fun file d' => d' = d ∧ file.2 < 512) (readConfig path) d := by
  refine Prog.ok_read_bind ?_
  rintro _ rfl
  refine ⟨hG, ?_⟩
  cases d.files path with
  | none => trivial
  | some file => exact fun _ h => ⟨h.symm, Nat.mod_lt _ (by decide)⟩

theorem apply_forward (ho : options.Apart) (d : Disk) :
    Prog.Ok Eq (Forward options) (AppliedAbove options d) (apply literal sha256 client env options) d := by
  refine Prog.ok_bind (fun _ => rfl) ((recoverPending_forward ho d).reach .refl) fun _ d₁ ⟨_, hsteps⟩ => ?_
  refine Prog.ok_read_bind ?_
  rintro _ rfl
  refine ⟨.refl d₁, Prog.ok_ofExcept_bind fun metadata _ => Prog.ok_ofExcept_bind fun tx htx => Prog.ok_read_bind ?_⟩
  rintro _ rfl
  refine ⟨.refl d₁, Prog.ok_ofExcept_bind fun stored hstored => Prog.ok_ofExcept_bind fun _ hfresh => ?_⟩
  have hresolved := resolveStaged_read htx
  have hchecked := resolveAt_checked hresolved
  have habove := validateFreshness_above hfresh (stateForChannel_unversioned hstored) hchecked.sequence
  refine Prog.ok_bind (fun _ => rfl) (readConfig_bound (.refl d₁)) ?_
  rintro ⟨config, mode⟩ _ ⟨rfl, hmode⟩
  refine Prog.ok_ofExcept_bind fun _ hbase => Prog.ok_read_bind ?_
  rintro _ rfl
  refine ⟨.refl _, Prog.ok_ofExcept_bind fun _ _ => Prog.ok_read_bind ?_⟩
  rintro _ rfl
  refine ⟨.refl _, Prog.ok_ofExcept_bind fun _ _ => Prog.ok_ofExcept_bind fun _ _ => ?_⟩
  rintro _ rfl
  refine ⟨.same rfl rfl, Prog.ok_ofExcept_bind fun _ _ => ?_⟩
  refine Prog.ok_bind (fun _ => rfl) (Prog.ok_mapError (readExisting_ok (.refl _))) ?_
  rintro newConfig _ ⟨rfl, -⟩
  obtain ⟨hnamed, -⟩ := guard_ok.mp (guard_ok.mp hbase).2
  have hvalid : (appliedState sha256 env (stateForChannel stored tx.channel) tx newConfig).Valid :=
    ⟨appliedState_fits sha256 env (stateForChannel_fits (readState_fits hstored) _) (resolveAt_fits hresolved) newConfig,
      rfl, hchecked.digest, hchecked.sequence⟩
  refine Prog.ok_bind (fun _ => rfl) (commit_forward ho hstored hmode hnamed
    (saved_valid (readState_fits hstored) hvalid tx.channel) (saved_whole hchecked.channel)
    fun hwhole => saved_behind hwhole hchecked.channel ⟨habove.le, le_max_left _ _, le_max_left _ _⟩) ?_
  rintro _ d' hsaved _ rfl
  refine ⟨fun s hs => ?_, _, hsaved, ?_⟩
  · obtain ⟨s', hs', hbehind⟩ := Forward.steps hsteps s hs
    obtain rfl := Except.ok.inj (hs'.stored.symm.trans hstored)
    exact (hbehind tx.channel hchecked.channel).sequence.trans_lt habove
  · rw [stateForChannel_saved _ _ (isChannel_ne hchecked.channel)]
    rfl

/-- What is staged is staged in files of its own. -/
def TransactionOptions.StagesApart (options : TransactionOptions) : Prop :=
  ∀ p ∈ [stagedConfigPath options, planFilePath options, metadataPath options],
    p ≠ options.statePath ∧ p ≠ markerPath options

theorem stage_forward (ho : options.Apart) (hp : options.StagesApart) (d : Disk) :
    Prog.Ok Eq (Forward options) (fun _ _ => True) (stage literal sha256 client env options) d := by
  unfold stage
  split
  · trivial
  refine Prog.ok_bind (fun _ => rfl) (recoverPending_forward ho d) fun _ d _ => ?_
  refine Prog.ok_ofExcept_bind fun ⟨ref, tx⟩ _ => Prog.ok_read_bind ?_
  rintro _ rfl
  refine ⟨.refl d, Prog.ok_ofExcept_bind fun _ _ => Prog.ok_ofExcept_bind fun _ _ => ?_⟩
  refine Prog.ok_bind (fun _ => rfl) (readConfig_bound (.refl d)) ?_
  rintro ⟨config, mode⟩ _ ⟨rfl, -⟩
  refine Prog.ok_ofExcept_bind fun rendered _ => Prog.ok_ofExcept_bind fun _ _ => Prog.ok_modify_bind ?_
  rintro _ rfl
  refine ⟨.remove (hp _ (by simp)), Prog.ok_modify_bind ?_⟩
  rintro _ rfl
  refine ⟨.remove (hp _ (by simp)), ?_⟩
  refine Prog.ok_bind (fun _ => rfl) (atomicWrite_ok (.write _ (hp _ (by simp)))) ?_
  rintro _ d₁ rfl
  refine Prog.ok_bind (P := fun _ _ => True) (fun _ => rfl) ?_ fun preview d₂ _ => ?_
  · rintro _ rfl
    exact ⟨.same rfl rfl, fun _ _ => trivial⟩
  rcases previewPlan tx preview with ⟨plan, failure⟩
  refine Prog.ok_bind (P := fun _ _ => True) (fun _ => rfl) ?_ fun _ d₃ _ =>
    Prog.ok_bind (fun _ => rfl) (atomicWrite_ok (.write _ (hp _ (by simp)))) fun _ _ _ _ _ => trivial
  refine Prog.ok_bind (fun _ => rfl) (atomicWrite_ok (.write _ (hp _ (by simp)))) fun _ d₃ _ => ?_
  cases failure with
  | none => exact fun _ _ => trivial
  | some e => trivial

end

/-! ## Runs -/

section
variable (literal : List Char → Option (List Char)) (sha256 : Bytes → Hash.Digest) (options : TransactionOptions)

/-- A call of the client, which may stop anywhere, or a change of files that are not its own. -/
inductive ClientStep : Disk → Disk → Prop where
  | stage (client : ManifestClient) (env : Env) (n : Nat) (d : Disk) :
      ClientStep d ((stage literal sha256 client env options).stop n d)
  | apply (client : ManifestClient) (env : Env) (n : Nat) (d : Disk) :
      ClientStep d ((apply literal sha256 client env options).stop n d)
  | recover (n : Nat) (d : Disk) : ClientStep d ((recoverPending sha256 options).stop n d)
  | other (d d' : Disk) : d'.bytes options.statePath = d.bytes options.statePath →
      d'.bytes (markerPath options) = d.bytes (markerPath options) → ClientStep d d'

end

section
variable {literal : List Char → Option (List Char)} {sha256 : Bytes → Hash.Digest} {options : TransactionOptions}

theorem ClientStep.forward (ho : options.Apart) (hp : options.StagesApart) {d d' : Disk}
    (h : ClientStep literal sha256 options d d') : Forward options d d' := by
  cases h with
  | stage client env n => exact .steps ((stage_forward ho hp d).stop (fun _ => rfl) n)
  | apply client env n => exact .steps ((apply_forward ho d).stop (fun _ => rfl) n)
  | recover n => exact .steps ((recoverPending_forward ho d).stop (fun _ => rfl) n)
  | other _ _ hstate hmarker => exact .same hstate hmarker

/-- Over every run of calls the counters of every channel only rise, and `apply` ends well only with a sequence
above the recorded one, which it then records. -/
theorem replay_counters_rise (ho : options.Apart) (hp : options.StagesApart) {d d' : Disk} {s : LocalState}
    (hs : Guarded options d s) (hrun : ReflTransGen (ClientStep literal sha256 options) d d') :
    ∃ s', Guarded options d' s' ∧ s.Behind s' ∧
      ∀ (client : ManifestClient) (env : Env) (tx : Transaction) (d'' : Disk),
        (apply literal sha256 client env options).run d' = (.ok tx, d'') →
          (stateForChannel s' tx.channel).sequence < tx.sequence ∧
            ∃ s'', Guarded options d'' s'' ∧ s'.Behind s'' ∧ (stateForChannel s'' tx.channel).sequence = tx.sequence := by
  have hforward : Forward options d d' := .steps (ReflTransGen.mono (fun _ _ => ClientStep.forward ho hp) _ _ hrun)
  obtain ⟨s', hs', hbehind⟩ := hforward s hs
  refine ⟨s', hs', hbehind, fun client env tx d'' happly => ?_⟩
  obtain ⟨hsteps, hdone⟩ := (apply_forward ho d').run fun _ => rfl
  rw [happly] at hsteps hdone
  obtain ⟨habove, saved, hsaved, hsequence⟩ := hdone tx rfl
  obtain ⟨s'', hs'', hbehind'⟩ := Forward.steps hsteps s' hs'
  obtain rfl := Except.ok.inj (hs''.stored.symm.trans hsaved)
  exact ⟨habove s' hs', s'', hs'', hbehind', hsequence⟩

end

open Edited in
/-- The sample staged from nothing, its configuration edited, and applied. -/
theorem sample_counters_rise :
    ∃ s', Guarded sampleOptions sampleEditedDisk s' ∧
      (stateForChannel s' sampleTx.channel).sequence < sampleTx.sequence ∧
        ∃ s'', Guarded sampleOptions sampleApplied s'' ∧
          (stateForChannel s'' sampleTx.channel).sequence = sampleTx.sequence := by
  obtain ⟨hc, hp, hm, hk⟩ := samplePaths
  have hstages : sampleOptions.StagesApart := by
    rw [TransactionOptions.StagesApart, hc, hp, hm, hk]
    decide
  obtain ⟨-, -, -, hmarker, hstate, -⟩ := sampleEditedDisk_bytes
  have hstart : Guarded sampleOptions sampleDisk .zero :=
    ⟨rfl, .inl rfl, fun data _ hd => absurd (show none = some data from hd).symm (Option.some_ne_none _)⟩
  have hedited : ClientStep noLiteral sampleSha256 sampleOptions sampleDisk sampleEditedDisk := .other _ _ hstate hmarker
  obtain ⟨s', hs', -, happly⟩ := replay_counters_rise sampleOptions_apart hstages hstart (.single hedited)
  obtain ⟨habove, s'', hs'', -, hsequence⟩ := happly _ _ _ _ sample_applied
  exact ⟨s', hs', habove, s'', hs'', hsequence⟩

end Omapkg.Client
