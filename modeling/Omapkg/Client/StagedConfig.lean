import Omapkg.Client.Apply
import Omapkg.Client.Crash
import Omapkg.Lib.Fallible
/-!
# The staged configuration

`apply` asks that the staged configuration is there, not what is in it: pacman is
run with the bytes that the file has by then, and those are installed. They are the
live configuration rewritten for the verified transaction just where the file
already held that.
-/

namespace Omapkg.Client

open Utf Record Json Fallible

theorem strconvParseUintFrom_lt {cs : List Char} {r n : Nat} (h : strconvParseUintFrom r cs = some n)
    (hr : r < 2 ^ 64) : n < 2 ^ 64 := by
  induction cs generalizing r with
  | nil =>
    obtain rfl := Option.some.inj h
    exact hr
  | cons c cs ih =>
    rw [strconvParseUintFrom] at h
    split_ifs at h with hc hbound
    rw [not_or, not_lt, not_lt] at hc
    have h9 : c.toNat ≤ 57 := hc.2
    exact ih h (by omega)

theorem uint64Field_lt (o : Object) (key : String) : (uint64Field o key).getD 0 < 2 ^ 64 := by
  cases h : uint64Field o key with
  | none => decide
  | some n =>
    obtain ⟨m, -, hm⟩ := Option.bind_eq_some_iff.mp h
    rw [strconvParseUint] at hm
    split_ifs at hm
    exact strconvParseUintFrom_lt hm (by decide)

theorem parseLaneRef_lt (o : Object) (key other : String) : (parseLaneRef o key other).sequence < 2 ^ 64 := by
  unfold parseLaneRef
  split
  · exact uint64Field_lt _ _
  · exact uint64Field_lt _ _
  · decide

/-- The sequences are those of 64 bits. -/
structure Transaction.Fits (tx : Transaction) : Prop where
  sequence : tx.sequence < 2 ^ 64
  systemSequence : tx.systemRef.sequence < 2 ^ 64
  oprSequence : tx.oprRef.sequence < 2 ^ 64

theorem readTransaction_fits (o : Object) (repositories : List Repository) (chunks : List PackageChunk)
    (packageCount : Int) : (readTransaction o repositories chunks packageCount).Fits :=
  ⟨uint64Field_lt _ _, parseLaneRef_lt _ _ _, parseLaneRef_lt _ _ _⟩

/-- A transaction that is parsed is read from its object and was checked. -/
theorem parseTransaction_read {raw : RawManifest} {tx : Transaction} (h : parseTransaction raw = .ok tx) :
    ∃ repositories chunks packageCount,
      parseRepositories [] ((arrayField raw.object "repositories").getD []) = .ok repositories ∧
        tx = readTransaction raw.object repositories chunks packageCount ∧
          validateTransactionFields tx raw.document.digest = .ok () := by
  obtain ⟨-, h⟩ := guard_ok.mp h
  obtain ⟨-, h⟩ := guard_ok.mp h
  obtain ⟨-, h⟩ := guard_ok.mp h
  obtain ⟨repositories, hrepositories, h⟩ := bind_ok.mp h
  obtain ⟨index, -, h⟩ := bind_ok.mp h
  split at h
  · obtain ⟨-, h⟩ := guard_ok.mp h
    split at h
    · cases h
    · obtain ⟨-, -, h⟩ := bind_ok.mp h
      obtain ⟨⟨⟩, hchecked, h⟩ := bind_ok.mp h
      obtain rfl := Except.ok.inj h
      exact ⟨repositories, _, _, hrepositories, rfl, hchecked⟩
  · cases h

theorem parseTransaction_fits {raw : RawManifest} {tx : Transaction} (h : parseTransaction raw = .ok tx) :
    tx.Fits := by
  obtain ⟨_, _, _, -, rfl, -⟩ := parseTransaction_read h
  exact readTransaction_fits _ _ _ _

theorem selectArchitecture_fits {target : String} {tx selected : Transaction}
    (h : selectArchitecture target tx = .ok selected) (ht : tx.Fits) : selected.Fits := by
  obtain ⟨-, h⟩ := guard_ok.mp h
  obtain ⟨-, h⟩ := guard_ok.mp h
  obtain rfl := Except.ok.inj h
  exact ⟨ht.sequence, ht.systemSequence, ht.oprSequence⟩

section
variable {literal : List Char → Option (List Char)} {sha256 : Bytes → Hash.Digest} {client : ManifestClient} {env : Env}
  {options : TransactionOptions}

theorem resolveAt_read {manifestUrl signatureUrl : String} {tx : Transaction}
    (h : resolveAt literal sha256 client env manifestUrl signatureUrl = .ok tx) :
    ∃ root parsed, parseTransaction root = .ok parsed ∧
      selectArchitecture client.architecture { parsed with raw := root.document.canonical, digest := root.document.digest } =
        .ok tx := by
  obtain ⟨root, -, h⟩ := bind_ok.mp h
  obtain ⟨parsed, hparsed, h⟩ := bind_ok.mp h
  obtain ⟨-, h⟩ := guard_ok.mp h
  obtain ⟨selected, hselected, h⟩ := bind_ok.mp h
  obtain ⟨-, -, h⟩ := bind_ok.mp h
  obtain ⟨-, h⟩ := guard_ok.mp h
  obtain ⟨system, -, h⟩ := bind_ok.mp h
  obtain ⟨opr, -, h⟩ := bind_ok.mp h
  obtain ⟨-, -, h⟩ := bind_ok.mp h
  obtain ⟨-, -, h⟩ := bind_ok.mp h
  obtain ⟨-, -, h⟩ := bind_ok.mp h
  obtain rfl := Except.ok.inj h
  exact ⟨root, parsed, hparsed, hselected⟩

theorem resolveStaged_read {metadata : StageMetadata} {tx : Transaction}
    (h : resolveStaged literal sha256 client env metadata = .ok tx) :
    resolveAt literal sha256 client env metadata.manifestUrl metadata.signatureUrl = .ok tx := by
  obtain ⟨resolved, hresolved, h⟩ := bind_ok.mp h
  obtain ⟨-, h⟩ := guard_ok.mp h
  obtain ⟨-, h⟩ := guard_ok.mp h
  obtain ⟨-, -, h⟩ := bind_ok.mp h
  obtain rfl := Except.ok.inj h
  exact hresolved

theorem resolveAt_fits {manifestUrl signatureUrl : String} {tx : Transaction}
    (h : resolveAt literal sha256 client env manifestUrl signatureUrl = .ok tx) : tx.Fits := by
  obtain ⟨root, parsed, hparsed, hselected⟩ := resolveAt_read h
  have hp := parseTransaction_fits hparsed
  exact selectArchitecture_fits hselected ⟨hp.sequence, hp.systemSequence, hp.oprSequence⟩

theorem wrapInt64_bound (n : Int) : -2 ^ 63 ≤ wrapInt64 n ∧ wrapInt64 n < 2 ^ 63 := by
  unfold wrapInt64
  omega

theorem localState_zero_fits : LocalState.zero.Fits := by
  refine ⟨⟨by decide, by decide, by decide, by decide⟩, by decide, .nil, ?_⟩
  simp [LocalState.zero]

theorem readState_fits {file : Option Bytes} {s : LocalState} (h : readState file = .ok s) : s.Fits := by
  cases file with
  | none =>
    obtain rfl := Except.ok.inj h
    exact localState_zero_fits
  | some data => exact (readState_valid h).fits

theorem stateForChannel_fits {s : LocalState} (h : s.Fits) (channel : String) : (stateForChannel s channel).Fits := by
  unfold stateForChannel
  split
  · rename_i selected hselected
    split_ifs at hselected
    have hmem := List.lookup_eq_some_iff.mp hselected
    obtain ⟨before, after, hchannels, -⟩ := hmem
    have hfits := h.channelStates (channel, selected) (by rw [hchannels]; simp)
    exact ⟨hfits, ⟨by simp [localStateFromChannel], by simp [localStateFromChannel]⟩, .nil,
      by simp [localStateFromChannel]⟩
  · split
    · exact h
    · exact localState_zero_fits

theorem appliedState_fits (sha256 : Bytes → Hash.Digest) (env : Env) {state : LocalState} {tx : Transaction} (hs : state.Fits) (ht : tx.Fits) (newConfig : Bytes) :
    (appliedState sha256 env state tx newConfig).Fits := by
  refine ⟨⟨ht.sequence, ?_, ?_, wrapInt64_bound _⟩, ?_, .nil, ?_⟩
  · exact max_lt hs.systemSequence ht.systemSequence
  · exact max_lt hs.oprSequence ht.oprSequence
  · exact ⟨by simp [appliedState], by simp [appliedState]⟩
  · simp [appliedState]

theorem saved_fits {s selected : LocalState} (hs : s.Fits) (h : selected.Fits) (c : String) :
    (saveChannelState s c selected).Fits where
  toFits := h.toFits
  schemaVersion := h.schemaVersion
  channels := setKey_ascending c _ hs.channels
  channelStates := fun e he => by
    rcases setKey_mem he with rfl | he
    · exact h.toFits
    · exact hs.channelStates e he

/-! ## What was applied -/

theorem atomicWrite_run_ok {path : String} {data : Bytes} {mode : Nat} {d d' : Disk} :
    (atomicWrite path data mode).run d = (.ok (), d') ↔ path ≠ "" ∧ d' = d.write path ⟨data, mode⟩ := by
  unfold atomicWrite
  split
  · rename_i hpath
    simp [Prog.run, hpath]
  · rename_i hpath
    simp [Prog.modify, Prog.run, hpath, eq_comm]

theorem readExisting_run_ok {path : String} {data : Bytes} {d d' : Disk} :
    (readExisting path).run d = (.ok data, d') ↔ d.bytes path = some data ∧ d = d' := by
  rw [readExisting, readFile, Prog.run_read_bind]
  cases d.bytes path with
  | none => simp [Prog.run]
  | some data' => simp [Prog.run]

theorem readConfig_run_ok {path : String} {config : Bytes} {mode : Nat} {d d' : Disk} :
    (readConfig path).run d = (.ok (config, mode), d') ↔
      d.bytes path = some config ∧ (∃ file, d.files path = some file ∧ mode = file.mode % 512) ∧ d = d' := by
  rw [readConfig, Prog.run_read_bind, Disk.bytes]
  cases d.files path with
  | none => simp [Prog.run]
  | some file =>
    simp only [Prog.run, Prod.mk.injEq, Except.ok.injEq, Option.map_some, Option.some.injEq, exists_eq_left']
    constructor
    · rintro ⟨⟨rfl, rfl⟩, rfl⟩
      exact ⟨rfl, rfl, rfl⟩
    · rintro ⟨rfl, rfl, rfl⟩
      exact ⟨⟨rfl, rfl⟩, rfl⟩

/-- A transaction that was applied: the disk once nothing was pending, what the metadata said, and the bytes of the
staged configuration. -/
structure Applied (literal : List Char → Option (List Char)) (sha256 : Bytes → Hash.Digest) (client : ManifestClient)
    (env : Env) (options : TransactionOptions) (d d' : Disk) (tx : Transaction) (before : Disk)
    (metadata : StageMetadata) (stored : LocalState) (base config : Bytes) (mode : Nat) : Prop where
  recovered : (recoverPending sha256 options).run d = (.ok (), before)
  metadata_ok : checkMetadata (before.bytes (metadataPath options)) = .ok metadata
  resolved : resolveStaged literal sha256 client env metadata = .ok tx
  stored_ok : readState (before.bytes options.statePath) = .ok stored
  base_ok : before.bytes options.configPath = some base
  named : metadata.stagedConfig ≠ ""
  mode_lt : mode < 512
  staged : before.bytes metadata.stagedConfig = some config
  committed : ∃ args, (commit sha256 options (commitMarker options metadata mode (saveChannelState stored tx.channel
    (appliedState sha256 env (stateForChannel stored tx.channel) tx config)))).run
      (before.called ⟨some config, args⟩) = (.ok (), d')

theorem apply_ok {d d' : Disk} {tx : Transaction}
    (h : (apply literal sha256 client env options).run d = (.ok tx, d')) :
    ∃ before metadata stored base config mode, Applied literal sha256 client env options d d' tx before metadata stored base config mode := by
  obtain ⟨_, before, hrecovered, h⟩ := Prog.run_bind_ok.mp h
  simp only [readFile, Prog.run_read_bind] at h
  obtain ⟨metadata, hmetadata, h⟩ := Prog.run_ofExcept_bind_ok.mp h
  obtain ⟨tx', hresolved, h⟩ := Prog.run_ofExcept_bind_ok.mp h
  simp only [Prog.run_read_bind] at h
  obtain ⟨stored, hstored, h⟩ := Prog.run_ofExcept_bind_ok.mp h
  obtain ⟨-, -, h⟩ := Prog.run_ofExcept_bind_ok.mp h
  obtain ⟨⟨base, mode⟩, d₁, hconfig, h⟩ := Prog.run_bind_ok.mp h
  obtain ⟨hbase, ⟨file, -, hmode⟩, rfl⟩ := readConfig_run_ok.mp hconfig
  obtain ⟨_, hcheck, h⟩ := Prog.run_ofExcept_bind_ok.mp h
  obtain ⟨hnamed, -⟩ := guard_ok.mp (guard_ok.mp hcheck).2
  simp only [Prog.run_read_bind] at h
  obtain ⟨-, -, h⟩ := Prog.run_ofExcept_bind_ok.mp h
  simp only [Prog.run_read_bind] at h
  obtain ⟨-, -, h⟩ := Prog.run_ofExcept_bind_ok.mp h
  obtain ⟨-, -, h⟩ := Prog.run_ofExcept_bind_ok.mp h
  obtain ⟨run, d₂, hpacman, h⟩ := Prog.run_bind_ok.mp h
  obtain ⟨-, -, h⟩ := Prog.run_ofExcept_bind_ok.mp h
  obtain ⟨config, d₃, hread, h⟩ := Prog.run_bind_ok.mp h
  obtain ⟨hstaged, rfl⟩ := readExisting_run_ok.mp (Prog.run_mapError_ok.mp hread)
  obtain ⟨_, d₄, hcommit, h⟩ := Prog.run_bind_ok.mp h
  obtain ⟨htx, rfl⟩ := Prod.mk.inj h
  obtain rfl := Except.ok.inj htx
  obtain ⟨-, rfl⟩ := Prod.mk.inj hpacman
  rw [Disk.bytes_called] at hstaged
  refine ⟨before, metadata, stored, base, config, mode, hrecovered, hmetadata, hresolved, hstored, hbase, hnamed,
    ?_, hstaged, ?_⟩
  · rw [hmode]
    exact Nat.mod_lt _ (by decide)
  · refine ⟨pacmanArgs metadata.stagedConfig (rollbackAllowed (stateForChannel stored tx'.channel) tx') false, ?_⟩
    rw [← hstaged]
    exact hcommit

/-- And so it is applied where all that is checked holds. -/
theorem apply_run (stored : LocalState) (base config : Bytes) (mode : Nat) (args : List String) {d d' : Disk}
    {tx : Transaction} {metadata : StageMetadata} (hrecovered : (recoverPending sha256 options).run d = (.ok (), d))
    (hmetadata : checkMetadata (d.bytes (metadataPath options)) = .ok metadata)
    (hresolved : resolveStaged literal sha256 client env metadata = .ok tx)
    (hstored : readState (d.bytes options.statePath) = .ok stored)
    (hfresh : validateFreshness (stateForChannel stored tx.channel) tx
      (rollbackAllowed (stateForChannel stored tx.channel) tx) = .ok ())
    (hbase : d.files options.configPath = some ⟨base, mode⟩) (hcheck : checkBaseConfig sha256 metadata base = .ok ())
    (hplan : checkPlan sha256 metadata (d.bytes metadata.planPath) = .ok ())
    (hstaged : d.bytes metadata.stagedConfig = some config)
    (hrepositories : verifyRepositorySnapshots literal sha256 client env metadata.manifestUrl 10 tx.repositories = .ok ())
    (hargs : pacmanArgs metadata.stagedConfig (rollbackAllowed (stateForChannel stored tx.channel) tx) false = args)
    (hpacman : checkPacman (env.pacman options.pacman (some config) args) = .ok ())
    (hcommit : (commit sha256 options (commitMarker options metadata (mode % 512)
      (saveChannelState stored tx.channel (appliedState sha256 env (stateForChannel stored tx.channel) tx config)))).run
        (d.called ⟨some config, args⟩) = (.ok (), d')) :
    (apply literal sha256 client env options).run d = (.ok tx, d') := by
  have hconfig : (readConfig options.configPath).run d = (.ok (base, mode % 512), d) := by
    rw [readConfig, Prog.run_read_bind, hbase]
    rfl
  have hpresent : checkStaged (d.bytes metadata.stagedConfig) = .ok () := by
    rw [hstaged]
    rfl
  refine Prog.run_bind_ok.mpr ⟨(), d, hrecovered, ?_⟩
  simp only [readFile, Prog.run_read_bind]
  refine Prog.run_ofExcept_bind_ok.mpr ⟨metadata, hmetadata, Prog.run_ofExcept_bind_ok.mpr ⟨tx, hresolved, ?_⟩⟩
  simp only [Prog.run_read_bind]
  refine Prog.run_ofExcept_bind_ok.mpr ⟨stored, hstored, Prog.run_ofExcept_bind_ok.mpr ⟨(), hfresh, ?_⟩⟩
  refine Prog.run_bind_ok.mpr ⟨(base, mode % 512), d, hconfig, Prog.run_ofExcept_bind_ok.mpr ⟨(), hcheck, ?_⟩⟩
  simp only [Prog.run_read_bind]
  refine Prog.run_ofExcept_bind_ok.mpr ⟨(), hplan, ?_⟩
  simp only [Prog.run_read_bind]
  refine Prog.run_ofExcept_bind_ok.mpr ⟨(), hpresent, Prog.run_ofExcept_bind_ok.mpr ⟨(), hrepositories, ?_⟩⟩
  rw [hargs]
  refine Prog.run_bind_ok.mpr ⟨env.pacman options.pacman (some config) args, d.called ⟨some config, args⟩, ?_, ?_⟩
  · rw [← hstaged]
    rfl
  refine Prog.run_ofExcept_bind_ok.mpr ⟨(), hpacman, ?_⟩
  refine Prog.run_bind_ok.mpr ⟨config, _, Prog.run_mapError_ok.mpr (readExisting_run_ok.mpr ⟨hstaged, rfl⟩), ?_⟩
  exact Prog.run_bind_ok.mpr ⟨(), d', hcommit, rfl⟩

/-- Recovery ends well only where there are paths to write to. -/
theorem installMarker_paths {marker : CommitMarker} {config : Bytes} {d d' : Disk}
    (h : (installMarker options marker config).run d = (.ok (), d')) :
    marker.configPath ≠ "" ∧ marker.statePath ≠ "" := by
  obtain ⟨_, d₁, hconfig, h⟩ := Prog.run_bind_ok.mp h
  obtain ⟨_, d₂, hstate, -⟩ := Prog.run_bind_ok.mp h
  exact ⟨(atomicWrite_run_ok.mp (Prog.run_mapError_ok.mp hconfig)).1,
    (atomicWrite_run_ok.mp (Prog.run_mapError_ok.mp hstate)).1⟩

theorem recoverPending_paths {data : Bytes} {marker : CommitMarker} {d d' : Disk}
    (hd : d.bytes (markerPath options) = some data) (hm : pendingMarker options data = .ok marker)
    (h : (recoverPending sha256 options).run d = (.ok (), d')) : options.configPath ≠ "" ∧ options.statePath ≠ "" := by
  obtain ⟨-, hconfig, hstate⟩ := pendingMarker_ok hm
  rw [recoverPending, readFile, Prog.run_read_bind, hd] at h
  obtain ⟨marker', hm', h⟩ := Prog.run_ofExcept_bind_ok.mp h
  obtain rfl := Except.ok.inj (hm.symm.trans hm')
  obtain ⟨config, d₁, -, h⟩ := Prog.run_bind_ok.mp h
  obtain ⟨_, -, h⟩ := Prog.run_ofExcept_bind_ok.mp h
  rw [← hconfig, ← hstate]
  exact installMarker_paths h

theorem sha256Hex_ne (data : Bytes) : sha256Hex sha256 data ≠ "" := by
  intro he
  have hdigits := Hash.isHexDigest_hex (sha256 data)
  rw [show (sha256 data).hex = "" from he] at hdigits
  exact absurd hdigits (by decide)

section
variable {metadata : StageMetadata} {mode : Nat} {state : LocalState} {config : Bytes} {d d' : Disk}

theorem commitMarker_read (options : TransactionOptions) (hmode : mode < 512) (hstate : state.Fits) (hnamed : metadata.stagedConfig ≠ "") :
    pendingMarker options (marshal commitMarkerCodec (commitMarker options metadata mode state)) =
      .ok (commitMarker options metadata mode state) := by
  have hmode' : (commitMarker options metadata mode state).configMode < 2 ^ 32 := lt_trans hmode (by decide)
  rw [pendingMarker, unmarshal_marker rfl hmode' hstate]
  simp [commitMarker, hnamed]

/-- The disk once a transaction is committed. -/
def committedDisk (options : TransactionOptions) (data : Bytes) (mode : Nat) (state : LocalState) (config : Bytes)
    (d : Disk) : Disk :=
  (((d.write (markerPath options) ⟨data, 0o600⟩).write options.configPath
    ⟨config, if mode = 0 then 0o644 else mode⟩).write options.statePath
      ⟨marshal localStateCodec state, 0o600⟩).remove (markerPath options)

theorem commit_run (ho : options.Apart) (hpaths : options.configPath ≠ "" ∧ options.statePath ≠ "") (hmode : mode < 512)
    (hstate : state.Fits) (hdigest : state.configSha256 = sha256Hex sha256 config)
    (hnamed : metadata.stagedConfig ≠ "") (hnone : d.bytes (markerPath options) = none)
    (hstaged : d.bytes metadata.stagedConfig = some config) :
    (commit sha256 options (commitMarker options metadata mode state)).run d =
      (.ok (), committedDisk options (marshal commitMarkerCodec (commitMarker options metadata mode state)) mode state
        config d) := by
  have hne : metadata.stagedConfig ≠ markerPath options := by
    intro he
    rw [he, hnone] at hstaged
    exact absurd hstaged.symm (Option.some_ne_none _)
  have hmarker : markerPath options ≠ "" := by
    intro he
    have hl := congrArg (fun s => s.toList.length) he
    simp [markerPath] at hl
  have hcheck : checkStagedConfig sha256 (commitMarker options metadata mode state) config = .ok () := by
    have hrecorded : (commitMarker options metadata mode state).state.configSha256 = sha256Hex sha256 config := hdigest
    rw [checkStagedConfig, hrecorded, if_neg]
    rintro (he | hdiffers)
    · exact sha256Hex_ne config he
    · exact hdiffers rfl
  refine Prog.run_bind_ok.mpr ⟨(), _, Prog.run_mapError_ok.mpr (atomicWrite_run_ok.mpr ⟨hmarker, rfl⟩), ?_⟩
  have hread := commitMarker_read options hmode hstate hnamed
  generalize marshal commitMarkerCodec (commitMarker options metadata mode state) = data at hread ⊢
  have hdata := Disk.bytes_write_self d (markerPath options) ⟨data, 0o600⟩
  have hkept := (Disk.bytes_write_ne d hne ⟨data, 0o600⟩).trans hstaged
  have hrun := recoverPending_run ho hpaths hdata hread hkept hcheck
  simp only [commitMarker] at hrun
  exact hrun

theorem committedDisk_config (ho : options.Apart) (data : Bytes) :
    (committedDisk options data mode state config d).bytes options.configPath = some config := by
  rw [committedDisk, Disk.bytes_remove_ne _ ho.config_marker, Disk.bytes_write_ne _ ho.config_state,
    Disk.bytes_write_self]

/-- Committing installs the staged configuration. -/
theorem commit_installs (ho : options.Apart) (hmode : mode < 512) (hstate : state.Fits)
    (hdigest : state.configSha256 = sha256Hex sha256 config) (hnamed : metadata.stagedConfig ≠ "")
    (hnone : d.bytes (markerPath options) = none) (hstaged : d.bytes metadata.stagedConfig = some config)
    (h : (commit sha256 options (commitMarker options metadata mode state)).run d = (.ok (), d')) :
    d'.bytes options.configPath = some config ∧ d'.calls = d.calls := by
  have hpaths : options.configPath ≠ "" ∧ options.statePath ≠ "" := by
    obtain ⟨_, d₁, hwrite, hrecover⟩ := Prog.run_bind_ok.mp h
    obtain ⟨-, rfl⟩ := atomicWrite_run_ok.mp (Prog.run_mapError_ok.mp hwrite)
    have hread := commitMarker_read options hmode hstate hnamed
    generalize marshal commitMarkerCodec (commitMarker options metadata mode state) = data at hread hrecover
    exact recoverPending_paths (Disk.bytes_write_self d (markerPath options) ⟨data, 0o600⟩) hread hrecover
  rw [commit_run ho hpaths hmode hstate hdigest hnamed hnone hstaged] at h
  obtain ⟨-, rfl⟩ := Prod.mk.inj h
  exact ⟨committedDisk_config ho _, rfl⟩

end

/-! ## The configuration that is applied -/

/-- The disk as `apply` finds it once nothing is pending. -/
def recovered (sha256 : Bytes → Hash.Digest) (options : TransactionOptions) (d : Disk) : Disk :=
  ((recoverPending sha256 options).run d).2

/-- The live configuration with the repositories of a transaction. -/
def rewrittenConfig (options : TransactionOptions) (d : Disk) (tx : Transaction) : Option Bytes :=
  (d.bytes options.configPath).bind fun base => (rewriteConfig base tx.repositories).toOption

/-- From `d` to `d'` pacman was run with the rewritten configuration, and that was installed. -/
def AppliesRewritten (options : TransactionOptions) (d d' : Disk) (tx : Transaction) : Prop :=
  ∃ config args, rewrittenConfig options d tx = some config ∧ d'.calls = d.calls ++ [⟨some config, args⟩] ∧
    d'.bytes options.configPath = some config

/-- The file that the metadata names as the staged configuration holds the rewritten one. -/
def StagedRewritten (literal : List Char → Option (List Char)) (sha256 : Bytes → Hash.Digest) (client : ManifestClient)
    (env : Env) (options : TransactionOptions) (d : Disk) : Prop :=
  ∃ metadata tx config, checkMetadata (d.bytes (metadataPath options)) = .ok metadata ∧
    resolveStaged literal sha256 client env metadata = .ok tx ∧ rewrittenConfig options d tx = some config ∧
    d.bytes metadata.stagedConfig = some config

/-- A transaction is applied with the bytes of the file that the metadata names. -/
theorem apply_installs (ho : options.Apart) {d d' : Disk} {tx : Transaction}
    (h : (apply literal sha256 client env options).run d = (.ok tx, d')) :
    ∃ metadata config args, checkMetadata ((recovered sha256 options d).bytes (metadataPath options)) = .ok metadata ∧
      resolveStaged literal sha256 client env metadata = .ok tx ∧
      (recovered sha256 options d).bytes metadata.stagedConfig = some config ∧
      d'.calls = (recovered sha256 options d).calls ++ [⟨some config, args⟩] ∧
      d'.bytes options.configPath = some config := by
  obtain ⟨before, metadata, stored, base, config, mode, hrun⟩ := apply_ok h
  obtain ⟨args, hcommit⟩ := hrun.committed
  have hbefore : recovered sha256 options d = before := by rw [recovered, hrun.recovered]
  have hok : Prog.Ok Eq (RecoverStep sha256 options) (fun _ d => d.bytes (markerPath options) = none)
    (recoverPending sha256 options) d := recoverPending_ok ho d
  have hnone : before.bytes (markerPath options) = none := by
    have hdone := (hok.run fun _ => rfl).2 ()
    rw [hrun.recovered] at hdone
    exact hdone rfl
  have hsaved := saved_fits (readState_fits hrun.stored_ok)
    (appliedState_fits sha256 env (stateForChannel_fits (readState_fits hrun.stored_ok) tx.channel)
      (resolveAt_fits (resolveStaged_read hrun.resolved)) config) tx.channel
  obtain ⟨hconfig, hcalls⟩ := commit_installs (d := before.called ⟨some config, args⟩) ho hrun.mode_lt hsaved rfl hrun.named hnone hrun.staged hcommit
  rw [hbefore]
  exact ⟨metadata, config, args, hrun.metadata_ok, hrun.resolved, hrun.staged, hcalls, hconfig⟩

/-- `apply` succeeds with whatever the staged file holds: that is the rewritten configuration only where the file
already was. -/
theorem applies_rewritten_iff (ho : options.Apart) {d d' : Disk} {tx : Transaction}
    (h : (apply literal sha256 client env options).run d = (.ok tx, d')) :
    AppliesRewritten options (recovered sha256 options d) d' tx ↔
      StagedRewritten literal sha256 client env options (recovered sha256 options d) := by
  obtain ⟨metadata, config, args, hmetadata, hresolved, hstaged, hcalls, hconfig⟩ := apply_installs ho h
  constructor
  · rintro ⟨config', args', hrewritten, hcalls', hconfig'⟩
    obtain rfl := Option.some.inj (hconfig.symm.trans hconfig')
    exact ⟨metadata, tx, config, hmetadata, hresolved, hrewritten, hstaged⟩
  · rintro ⟨metadata', tx', config', hmetadata', hresolved', hrewritten, hstaged'⟩
    obtain rfl := Except.ok.inj (hmetadata.symm.trans hmetadata')
    obtain rfl := Except.ok.inj (hresolved.symm.trans hresolved')
    obtain rfl := Option.some.inj (hstaged.symm.trans hstaged')
    exact ⟨config, args, hrewritten, hcalls, hconfig⟩

end

theorem unmarshal_stageMetadata {m : StageMetadata} (hv : m.schemaVersion = 1)
    (ht : -2 ^ 63 ≤ m.stagedAt ∧ m.stagedAt < 2 ^ 63) :
    unmarshal stageMetadataCodec .zero (marshal stageMetadataCodec m) = some m := by
  have hversion : -2 ^ 63 ≤ m.schemaVersion ∧ m.schemaVersion < 2 ^ 63 := by
    rw [hv]
    decide
  have hdepth : (stageMetadataCodec.encode m).depth ≤ 1 := by
    refine record_depth ?_
    simp only [List.forall_mem_cons, field, omitted, Option.ite_none_left_eq_some, Option.some.injEq]
    refine ⟨?_, ?_, ?_, ?_, ?_, ?_, ?_, ?_, ?_, ?_, ?_, by simp⟩
    all_goals
      first
      | rintro v rfl; exact le_refl _
      | rintro v ⟨-, rfl⟩; exact le_refl _
  refine unmarshal_marshal (le_trans hdepth (by decide)) (record_reads (by decide) ?_ ?_)
  · refine ⟨field_reads (int64Codec_reads hversion _), field_reads rfl, omitted_reads (field_reads rfl) fun hempty => ?_,
      field_reads rfl, field_reads rfl, field_reads rfl, field_reads rfl, field_reads rfl, field_reads rfl,
      field_reads (int64Codec_reads ht _), field_reads rfl, trivial⟩
    simp only [decide_eq_true_eq] at hempty
    simp only [field, hempty]
    rfl
  · obtain ⟨v, u, s, c, d, b, g, p, q, a, r⟩ := m
    rfl

/-! ## An edited file -/

namespace Edited

def digestText (c : Char) : String := String.ofList (List.replicate 64 c)

/-- What every sample manifest says. -/
def sampleCommon (kind lane : String) : Object :=
  [("architectures", .arr [.str "x86_64"]),
    ("changelog", .obj [("approvedBy", .str "a"), ("cohortDigests", .arr []), ("sha256", .str (digestText '0'))]),
    ("channel", .str "stable"), ("createdAt", .num (.ofNat 1)), ("expiresAt", .num (.ofNat 9000)), ("kind", .str kind),
    ("lane", .str lane)]

def sampleRest : Object :=
  [("packageChunks", .arr []), ("packageCount", .num (.ofNat 0)),
    ("policy", .obj [("schemaVersion", .num (.ofNat 1)), ("version", .str policyVersion)])]

def sampleLane (kind : String) : Object :=
  sampleCommon kind kind ++ sampleRest ++ [("schemaVersion", .num (.ofNat 1)), ("sequence", .num (.ofNat 1))]

def sampleRef (digest : String) (path : String) : GoValue :=
  .obj [("channel", .str "stable"), ("digest", .str digest), ("sequence", .num (.ofNat 1)),
    ("signatureUrl", .str ("https://h/" ++ path ++ ".sig")), ("url", .str ("https://h/" ++ path))]

def sampleTransaction : Object :=
  sampleCommon "resolved-transaction" "transaction" ++
    [("oprManifest", sampleRef (digestText '2') "o")] ++ sampleRest ++
    [("releaseId", .str "r"),
      ("repositories", .arr [.obj [("architecture", .str "x86_64"), ("dbUrl", .str "https://h/p/core.db"), ("name", .str "core"),
        ("packageBaseUrl", .str "https://h/p"), ("signatureUrl", .str "https://h/p/core.db.sig"),
        ("snapshotDigest", .str (digestText '4'))]]),
      ("schemaVersion", .num (.ofNat 1)), ("sequence", .num (.ofNat 1)),
      ("systemManifest", sampleRef (digestText '1') "s")]

theorem canonicalDocument_canonicalMarshal {object : Object} (h : Ascending (.obj object))
    (hd : (Json.obj object).depth ≤ maxNestingDepth) :
    canonicalDocument (canonicalMarshal (.obj object)) = .ok (canonicalMarshal (.obj object), object) := by
  have hparse := parse_print reads_goQuote (.obj object) hd stops_nil
  have hid : String.ofList ∘ String.toList = id := by
    funext s
    exact String.ofList_toList
  rw [List.append_nil, hid, map_id] at hparse
  rw [canonicalDocument, canonicalMarshal, decode_encode, hparse]
  simp only [goValue_ascending _ h]
  rfl

def repeated (b : UInt8) : Hash.Digest := ⟨List.replicate 32 b, by simp⟩

def systemBytes : Bytes := canonicalMarshal (.obj (sampleLane "system"))
def oprBytes : Bytes := canonicalMarshal (.obj (sampleLane "opr"))
def transactionBytes : Bytes := canonicalMarshal (.obj sampleTransaction)

def sampleSha256 (bytes : Bytes) : Hash.Digest :=
  if bytes = [1] then repeated 0x44
  else if bytes = systemBytes then repeated 0x11
  else if bytes = oprBytes then repeated 0x22
  else if bytes = transactionBytes then repeated 0x33
  else repeated (UInt8.ofNat bytes.length)

def sampleBody (url : String) : Bytes :=
  if url = "https://h/s" then systemBytes
  else if url = "https://h/o" then oprBytes
  else if url = "https://h/t" then transactionBytes
  else if url = "https://h/p/core.db" then [1]
  else [2]

def sampleEnv : Env where
  get _ url := .ok ⟨200, 0, .ok (sampleBody url)⟩
  discover _ _ := .error notExist
  gpg _ _ _ := .ok ⟨"[GNUPG:] VALIDSIG AB", true⟩
  pacman _ _ _ := ⟨[], true⟩
  now _ := 100

def sampleClient : ManifestClient := ⟨"AB", false, "x86_64", "", "", ""⟩

def sampleOptions : TransactionOptions := ⟨"https://h/t", "", "/c", "/s", "/g", "pacman"⟩

def sampleDisk : Disk := ⟨fun p => if p = "/c" then some ⟨utf8 "[options]\n", 0o644⟩ else none, []⟩

abbrev noLiteral : List Char → Option (List Char) := fun _ => none

theorem length_encode_le (cs : List Char) : (encode cs).length ≤ 4 * cs.length := by
  induction cs with
  | nil => exact le_refl _
  | cons c cs ih =>
    have hc := String.length_utf8EncodeChar c
    have h4 := Char.utf8Size_le_four c
    rw [encode, List.flatMap_cons, List.length_append, List.length_cons, hc]
    rw [encode] at ih
    omega

theorem canonicalMarshal_ne (object : Object) : canonicalMarshal (.obj object) ≠ [1] := by
  intro he
  obtain ⟨cs, hcs⟩ : ∃ cs, (Json.obj object).print goQuote = '{' :: cs := ⟨_, by rw [Json.print]⟩
  rw [canonicalMarshal, hcs] at he
  exact absurd (List.cons.inj he).1 (by decide)

theorem canonicalMarshal_inj {a b : Object} (ha : Ascending (.obj a)) (hda : (Json.obj a).depth ≤ maxNestingDepth)
    (hb : Ascending (.obj b)) (hdb : (Json.obj b).depth ≤ maxNestingDepth)
    (h : canonicalMarshal (.obj a) = canonicalMarshal (.obj b)) : a = b := by
  have hdoc := canonicalDocument_canonicalMarshal ha hda
  rw [h, canonicalDocument_canonicalMarshal hb hdb] at hdoc
  exact (Prod.mk.inj (Except.ok.inj hdoc)).2.symm

/-- A manifest that is read back as it was written: canonical, and within the limits. -/
structure Canonical where
  object : Object
  ascending : Ascending (.obj object)
  depth : (Json.obj object).depth ≤ maxNestingDepth
  length : 4 * ((Json.obj object).print goQuote).length ≤ maxManifestBytes

theorem Canonical.length_le (m : Canonical) : (canonicalMarshal (.obj m.object)).length ≤ maxManifestBytes :=
  (length_encode_le _).trans m.length

theorem Canonical.marshal_ne {a b : Canonical} (h : a.object ≠ b.object) :
    canonicalMarshal (.obj a.object) ≠ canonicalMarshal (.obj b.object) :=
  fun he => h (canonicalMarshal_inj a.ascending a.depth b.ascending b.depth he)

theorem sample_ascending : Ascending (.obj (sampleLane "system")) ∧ Ascending (.obj (sampleLane "opr")) ∧
    Ascending (.obj sampleTransaction) := by
  simp only [sampleLane, sampleTransaction, sampleRef, sampleCommon, sampleRest, List.cons_append, List.nil_append,
    AscendingMembers, Ascending, AscendingElems, and_true]
  decide

theorem sample_depth : (Json.obj (sampleLane "system")).depth ≤ maxNestingDepth ∧
    (Json.obj (sampleLane "opr")).depth ≤ maxNestingDepth ∧ (Json.obj sampleTransaction).depth ≤ maxNestingDepth := by
  decide

theorem sample_length : 4 * ((Json.obj (sampleLane "system")).print goQuote).length ≤ maxManifestBytes ∧
    4 * ((Json.obj (sampleLane "opr")).print goQuote).length ≤ maxManifestBytes ∧
    4 * ((Json.obj sampleTransaction).print goQuote).length ≤ maxManifestBytes := by
  decide +kernel

def systemManifest : Canonical := ⟨sampleLane "system", sample_ascending.1, sample_depth.1, sample_length.1⟩

def oprManifest : Canonical := ⟨sampleLane "opr", sample_ascending.2.1, sample_depth.2.1, sample_length.2.1⟩

def transactionManifest : Canonical := ⟨sampleTransaction, sample_ascending.2.2, sample_depth.2.2, sample_length.2.2⟩

theorem fetch_sample (place limit : Nat) {url : String} (hv : validateURL noLiteral url false = .ok ())
    (hl : (sampleBody url).length ≤ limit) :
    fetch noLiteral sampleClient sampleEnv place url limit = .ok (sampleBody url) := by
  refine bind_ok.mpr ⟨(), hv, bind_ok.mpr ⟨_, rfl, ?_⟩⟩
  have hzero : ¬(0 : Int) > limit := by omega
  simp only [ne_eq, not_true_eq_false, if_false, hzero]
  refine bind_ok.mpr ⟨_, rfl, ?_⟩
  simp only [not_lt.mpr hl, if_false]

theorem verifyOpenPGP_sample (place : Nat) (message signature : Bytes) :
    verifyOpenPGP sampleClient sampleEnv place message signature = .ok () := by
  have hfound : validSignature "" ("[GNUPG:] VALIDSIG AB".toList.splitOn '\n') = .ok "AB" := by decide
  have hpinned : ¬("AB" = "" ∨ "AB" ≠ upperText sampleClient.fingerprint) := by decide
  refine bind_ok.mpr ⟨_, rfl, ?_⟩
  simp only [Bool.true_eq_false, if_false]
  exact bind_ok.mpr ⟨_, hfound, if_neg hpinned⟩

/-- What a signed sample is read as. -/
theorem fetchSignedAt_sample (info : SignatureInfo) {place limit : Nat} {url expected signatureUrl : String} {object : Object}
    (hm : mutableURL noLiteral url = false) (hv : validateURL noLiteral url false = .ok ())
    (hbody : sampleBody url = canonicalMarshal (.obj object)) (hl : (sampleBody url).length ≤ limit)
    (hasc : Ascending (.obj object)) (hd : (Json.obj object).depth ≤ maxNestingDepth)
    (hi : signatureInfoFromObject noLiteral object url = .ok info) (hinfo : info.sha256 = "")
    (hc : checkSignatureUrl noLiteral sampleClient url expected info = .ok signatureUrl)
    (hs : fetch noLiteral sampleClient sampleEnv (place + 1) signatureUrl maxSignatureBytes = .ok [2]) :
    fetchSignedAt noLiteral sampleSha256 sampleClient sampleEnv place url expected limit = .ok ⟨object,
      ⟨canonicalMarshal (.obj object), canonicalMarshal (.obj object),
        sha256Hex sampleSha256 (canonicalMarshal (.obj object))⟩, [2], signatureUrl⟩ := by
  rw [fetchSignedAt]
  simp only [hm, Bool.false_eq_true, if_false]
  refine bind_ok.mpr ⟨(), hv, bind_ok.mpr ⟨_, fetch_sample _ _ hv hl, ?_⟩⟩
  rw [hbody]
  refine bind_ok.mpr ⟨_, canonicalDocument_canonicalMarshal hasc hd, ?_⟩
  simp only [ne_eq, not_true_eq_false, if_false]
  refine bind_ok.mpr ⟨info, hi, bind_ok.mpr ⟨signatureUrl, hc, bind_ok.mpr ⟨[2], ?_, ?_⟩⟩⟩
  · rw [hs]; rfl
  simp only [hinfo, not_true_eq_false, false_and, if_false]
  exact bind_ok.mpr ⟨(), verifyOpenPGP_sample _ _ _, rfl⟩

theorem fetch_signature {place : Nat} {url : String} (hv : validateURL noLiteral url false = .ok ())
    (hbody : sampleBody url = [2]) :
    fetch noLiteral sampleClient sampleEnv place url maxSignatureBytes = .ok [2] := by
  have h := fetch_sample place maxSignatureBytes hv (by rw [hbody]; decide)
  rw [h, hbody]

theorem signatureInfo_sample {object : Object} {url signatureUrl : String}
    (hi : signatureInfo object url = ⟨signatureUrl, ""⟩)
    (hv : validateURL noLiteral signatureUrl (isPlainHTTP url) = .ok ())
    (ho : validateSameOrigin noLiteral url signatureUrl = .ok ()) :
    signatureInfoFromObject noLiteral object url = .ok ⟨signatureUrl, ""⟩ := by
  rw [signatureInfoFromObject, hi]
  simp only [ne_eq, not_true_eq_false, false_and, if_false]
  exact bind_ok.mpr ⟨(), hv, bind_ok.mpr ⟨(), ho, rfl⟩⟩

theorem sample_signed :
    (fetchSignedAt noLiteral sampleSha256 sampleClient sampleEnv 0 "https://h/t" "" maxManifestBytes =
      .ok ⟨sampleTransaction, ⟨transactionBytes, transactionBytes, sha256Hex sampleSha256 transactionBytes⟩, [2],
        "https://h/t.sig"⟩) ∧
    (fetchSignedAt noLiteral sampleSha256 sampleClient sampleEnv 2 "https://h/s" "https://h/s.sig"
      maxManifestBytes = .ok ⟨sampleLane "system", ⟨systemBytes, systemBytes, sha256Hex sampleSha256 systemBytes⟩, [2],
        "https://h/s.sig"⟩) ∧
    (fetchSignedAt noLiteral sampleSha256 sampleClient sampleEnv 4 "https://h/o" "https://h/o.sig"
      maxManifestBytes = .ok ⟨sampleLane "opr", ⟨oprBytes, oprBytes, sha256Hex sampleSha256 oprBytes⟩, [2],
        "https://h/o.sig"⟩) := by
  refine ⟨?_, ?_, ?_⟩
  · have hbody : sampleBody "https://h/t" = transactionBytes := by simp [sampleBody]
    exact fetchSignedAt_sample ⟨"https://h/t.sig", ""⟩ (by decide) (by decide) hbody
      (by rw [hbody]; exact transactionManifest.length_le) transactionManifest.ascending transactionManifest.depth
      (signatureInfo_sample rfl (by decide) (by decide)) rfl rfl
      (fetch_signature (by decide) (by simp [sampleBody]))
  · have hbody : sampleBody "https://h/s" = systemBytes := by simp [sampleBody]
    exact fetchSignedAt_sample ⟨"https://h/s.sig", ""⟩ (by decide) (by decide) hbody
      (by rw [hbody]; exact systemManifest.length_le) systemManifest.ascending systemManifest.depth
      (signatureInfo_sample rfl (by decide) (by decide)) rfl (by decide)
      (fetch_signature (by decide) (by simp [sampleBody]))
  · have hbody : sampleBody "https://h/o" = oprBytes := by simp [sampleBody]
    exact fetchSignedAt_sample ⟨"https://h/o.sig", ""⟩ (by decide) (by decide) hbody
      (by rw [hbody]; exact oprManifest.length_le) oprManifest.ascending oprManifest.depth
      (signatureInfo_sample rfl (by decide) (by decide)) rfl (by decide)
      (fetch_signature (by decide) (by simp [sampleBody]))

theorem sample_digests :
    (sha256Hex sampleSha256 transactionBytes = digestText '3') ∧
    (sha256Hex sampleSha256 systemBytes = digestText '1') ∧
    (sha256Hex sampleSha256 oprBytes = digestText '2') := by
  refine ⟨?_, ?_, ?_⟩
  · have hs : transactionBytes ≠ systemBytes := Canonical.marshal_ne (a := transactionManifest) (b := systemManifest)
      fun he => absurd (congrArg List.length he) (by decide)
    have ho : transactionBytes ≠ oprBytes := Canonical.marshal_ne (a := transactionManifest) (b := oprManifest)
      fun he => absurd (congrArg List.length he) (by decide)
    rw [sha256Hex, sampleSha256, if_neg (show transactionBytes ≠ [1] from canonicalMarshal_ne _), if_neg hs, if_neg ho,
      if_pos rfl]
    decide
  · rw [sha256Hex, sampleSha256, if_neg (show systemBytes ≠ [1] from canonicalMarshal_ne _), if_pos rfl]
    decide
  · have hs : oprBytes ≠ systemBytes := Canonical.marshal_ne (a := oprManifest) (b := systemManifest)
      fun he => absurd (congrArg (fun o : Object => stringAt o "kind") he) (by decide)
    rw [sha256Hex, sampleSha256, if_neg (show oprBytes ≠ [1] from canonicalMarshal_ne _), if_neg hs, if_pos rfl]
    decide

def sampleRepository : Repository := ⟨"core", "x86_64", digestText '4', "https://h/p/core.db", "https://h/p/core.db.sig", "https://h/p"⟩

def sampleTx : Transaction :=
  { readTransaction sampleTransaction [sampleRepository] [] 0 with
    raw := transactionBytes, digest := digestText '3', architecture := "x86_64" }

theorem sample_read :
    (parseTransaction ⟨sampleTransaction, ⟨transactionBytes, transactionBytes, digestText '3'⟩, [2],
        "https://h/t.sig"⟩ = .ok (readTransaction sampleTransaction [sampleRepository] [] 0)) ∧
    (fetchReference noLiteral sampleSha256 sampleClient sampleEnv 2 sampleTx.systemRef "system" =
      .ok ⟨sampleLane "system", ⟨systemBytes, systemBytes, digestText '1'⟩, [2], "https://h/s.sig"⟩) ∧
    (fetchReference noLiteral sampleSha256 sampleClient sampleEnv 4 sampleTx.oprRef "opr" =
      .ok ⟨sampleLane "opr", ⟨oprBytes, oprBytes, digestText '2'⟩, [2], "https://h/o.sig"⟩) ∧
    (selectArchitecture "x86_64"
      { readTransaction sampleTransaction [sampleRepository] [] 0 with
        raw := transactionBytes, digest := digestText '3' } = .ok sampleTx) := by
  refine ⟨?_, ?_, ?_, ?_⟩
  · decide
  · have href : sampleTx.systemRef =
      ⟨"https://h/s", digestText '1', "https://h/s.sig", "stable", 1, "", ""⟩ := by decide
    have hsigned := sample_signed.2.1
    rw [sample_digests.2.1] at hsigned
    rw [fetchReference, href, if_neg (by decide), hsigned]
    refine bind_ok.mpr ⟨_, rfl, ?_⟩
    simp only
    rw [if_neg (by decide), if_neg (by decide)]
    refine bind_ok.mpr ⟨(), by decide, bind_ok.mpr ⟨(), by decide, if_neg (by decide)⟩⟩
  · have href : sampleTx.oprRef =
      ⟨"https://h/o", digestText '2', "https://h/o.sig", "stable", 1, "", ""⟩ := by decide
    have hsigned := sample_signed.2.2
    rw [sample_digests.2.2] at hsigned
    rw [fetchReference, href, if_neg (by decide), hsigned]
    refine bind_ok.mpr ⟨_, rfl, ?_⟩
    simp only
    rw [if_neg (by decide), if_neg (by decide)]
    refine bind_ok.mpr ⟨(), by decide, bind_ok.mpr ⟨(), by decide, if_neg (by decide)⟩⟩
  · rw [selectArchitecture, if_neg (by decide), if_neg (by decide)]
    rfl

theorem sample_resolved : resolveAt noLiteral sampleSha256 sampleClient sampleEnv "https://h/t" "" = .ok sampleTx := by
  have hroot := sample_signed.1
  rw [sample_digests.1] at hroot
  refine bind_ok.mpr ⟨_, hroot, bind_ok.mpr ⟨_, sample_read.1, ?_⟩⟩
  simp only
  rw [if_neg (by decide)]
  refine bind_ok.mpr ⟨sampleTx, sample_read.2.2.2, bind_ok.mpr ⟨(), by decide, ?_⟩⟩
  rw [if_neg (by decide)]
  refine bind_ok.mpr ⟨_, sample_read.2.1, bind_ok.mpr ⟨_, sample_read.2.2.1, bind_ok.mpr ⟨(), by decide, ?_⟩⟩⟩
  exact bind_ok.mpr ⟨(), by decide, bind_ok.mpr ⟨(), by decide, rfl⟩⟩

def sampleBase : Bytes := utf8 "[options]\n"

def sampleRendered : {rendered : Bytes // rewriteConfig sampleBase [sampleRepository] = .ok rendered} :=
  ⟨((rewriteConfig sampleBase [sampleRepository]).toOption).getD [], by decide⟩

/-- What is put in place of the staged configuration. -/
def sampleEdited : Bytes := utf8 "[evil]\nServer = https://evil/\n"

def samplePlan : Bytes := utf8 (planHeader sampleTx)

def sampleRef' : DiscoveryReference := ⟨"https://h/t", ""⟩

def sampleMetadata : StageMetadata :=
  stageMetadata sampleSha256 sampleEnv sampleOptions sampleRef' sampleTx sampleBase samplePlan false

def sampleStaged : Disk :=
  (((((sampleDisk.remove (metadataPath sampleOptions)).remove (planFilePath sampleOptions)).write
    (stagedConfigPath sampleOptions) ⟨sampleRendered.1, 0o644⟩).called
      ⟨some sampleRendered.1, pacmanArgs (stagedConfigPath sampleOptions) false true⟩).write
        (planFilePath sampleOptions) ⟨samplePlan, 0o600⟩).write (metadataPath sampleOptions)
          ⟨marshal stageMetadataCodec sampleMetadata, 0o600⟩

theorem samplePaths : stagedConfigPath sampleOptions = "/g/pacman.conf" ∧
    planFilePath sampleOptions = "/g/transaction-plan.txt" ∧ metadataPath sampleOptions = "/g/metadata.json" ∧
    markerPath sampleOptions = "/s.commit" := ⟨rfl, rfl, rfl, rfl⟩

theorem sampleResolved : resolveRequested noLiteral sampleSha256 sampleClient sampleEnv sampleOptions =
    .ok (sampleRef', sampleTx) := by
  refine bind_ok.mpr ⟨sampleRef', rfl, bind_ok.mpr ⟨sampleTx, sample_resolved, bind_ok.mpr ⟨(), rfl, rfl⟩⟩⟩

theorem sample_repositories : verifyRepositorySnapshots noLiteral sampleSha256 sampleClient sampleEnv "https://h/t" 10
    sampleTx.repositories = .ok () := by decide

theorem sample_rollback : rollbackAllowed .zero sampleTx = false := rfl

theorem sample_staged : (stage noLiteral sampleSha256 sampleClient sampleEnv sampleOptions).run sampleDisk =
    (.ok (sampleTx, samplePlan), sampleStaged) := by
  have hrendered : rewriteConfig sampleBase sampleTx.repositories = .ok sampleRendered.1 := sampleRendered.2
  have hpaths : stagedConfigPath sampleOptions ≠ "" ∧ planFilePath sampleOptions ≠ "" ∧
    metadataPath sampleOptions ≠ "" := by
    rw [samplePaths.1, samplePaths.2.1, samplePaths.2.2.1]
    decide
  rw [stage, if_neg (by decide)]
  refine Prog.run_bind_ok.mpr ⟨(), sampleDisk, rfl, ?_⟩
  refine Prog.run_ofExcept_bind_ok.mpr ⟨_, sampleResolved, ?_⟩
  simp only [readFile, Prog.run_read_bind]
  refine Prog.run_ofExcept_bind_ok.mpr ⟨.zero, rfl, ?_⟩
  refine Prog.run_ofExcept_bind_ok.mpr ⟨(), rfl, ?_⟩
  refine Prog.run_bind_ok.mpr ⟨(sampleBase, 0o644), sampleDisk, rfl, ?_⟩
  refine Prog.run_ofExcept_bind_ok.mpr ⟨_, hrendered, ?_⟩
  refine Prog.run_ofExcept_bind_ok.mpr ⟨(), rfl, ?_⟩
  simp only [Prog.run_modify_bind]
  refine Prog.run_bind_ok.mpr ⟨(), _, atomicWrite_run_ok.mpr ⟨hpaths.1, rfl⟩, ?_⟩
  refine Prog.run_bind_ok.mpr ⟨⟨[], true⟩, _, rfl, ?_⟩
  have hplan : previewPlan sampleTx ⟨[], true⟩ = (samplePlan, none) := by
    rw [previewPlan, if_neg (by decide), List.append_nil]
    rfl
  rw [hplan]
  refine Prog.run_bind_ok.mpr ⟨(), _, Prog.run_bind_ok.mpr ⟨(), _, atomicWrite_run_ok.mpr ⟨hpaths.2.1, rfl⟩, rfl⟩, ?_⟩
  refine Prog.run_bind_ok.mpr ⟨(), _, atomicWrite_run_ok.mpr ⟨hpaths.2.2, rfl⟩, ?_⟩
  have hrollback : rollbackAllowed (stateForChannel .zero sampleTx.channel) sampleTx = false := rfl
  simp only [Prog.run, Disk.bytes_write_self, hrollback]
  rfl

/-- The disk that was staged, with the staged configuration edited. -/
def sampleEditedDisk : Disk := sampleStaged.write (stagedConfigPath sampleOptions) ⟨sampleEdited, 0o644⟩

theorem sampleEditedDisk_bytes : sampleEditedDisk.bytes "/g/pacman.conf" = some sampleEdited ∧
    sampleEditedDisk.bytes "/g/transaction-plan.txt" = some samplePlan ∧
    sampleEditedDisk.bytes "/g/metadata.json" = some (marshal stageMetadataCodec sampleMetadata) ∧
    sampleEditedDisk.bytes "/s.commit" = none ∧ sampleEditedDisk.bytes "/s" = none ∧
    sampleEditedDisk.files "/c" = some ⟨sampleBase, 0o644⟩ := by
  obtain ⟨hc, hp, hm, -⟩ := samplePaths
  simp only [sampleEditedDisk, sampleStaged, hc, hp, hm, Disk.bytes, Disk.write, Disk.called, Disk.remove, sampleDisk]
  simp [sampleBase]

theorem sample_checked : checkMetadata (some (marshal stageMetadataCodec sampleMetadata)) = .ok sampleMetadata := by
  rw [checkMetadata, unmarshal_stageMetadata rfl (by decide)]
  simp only
  rw [if_neg (by decide), if_neg (by decide)]

theorem sample_restaged : resolveStaged noLiteral sampleSha256 sampleClient sampleEnv sampleMetadata = .ok sampleTx := by
  refine bind_ok.mpr ⟨sampleTx, sample_resolved, ?_⟩
  rw [if_neg (show ¬sampleTx.digest ≠ sampleMetadata.manifestSha256 from not_not.mpr rfl),
    if_neg (show ¬(sampleMetadata.channel ≠ "" ∧ sampleMetadata.channel ≠ sampleTx.channel) from fun h => h.2 rfl)]
  exact bind_ok.mpr ⟨(), rfl, rfl⟩

def sampleState : LocalState :=
  saveChannelState .zero sampleTx.channel (appliedState sampleSha256 sampleEnv .zero sampleTx sampleEdited)

def sampleApplied : Disk :=
  committedDisk sampleOptions
    (marshal commitMarkerCodec (commitMarker sampleOptions sampleMetadata 0o644 sampleState)) 0o644 sampleState sampleEdited (sampleEditedDisk.called
    ⟨some sampleEdited, pacmanArgs "/g/pacman.conf" false false⟩)

theorem sampleOptions_apart : sampleOptions.Apart := ⟨by decide, by decide⟩

section
variable {sha256 : Bytes → Hash.Digest} {env : Env} {options : TransactionOptions}

theorem stageMetadata_base (ref : DiscoveryReference) (tx : Transaction) (config plan : Bytes) (allowed : Bool) :
    sha256Hex sha256 config = (stageMetadata sha256 env options ref tx config plan allowed).baseConfigSha256 := rfl

theorem stageMetadata_plan (ref : DiscoveryReference) (tx : Transaction) (config plan : Bytes) (allowed : Bool) :
    sha256Hex sha256 plan = (stageMetadata sha256 env options ref tx config plan allowed).planSha256 := rfl

theorem saved_digest (stored state : LocalState) (tx : Transaction) (config : Bytes) (channel : String) :
    (saveChannelState stored channel (appliedState sha256 env state tx config)).configSha256 = sha256Hex sha256 config :=
  rfl

end

theorem sample_applied : (apply noLiteral sampleSha256 sampleClient sampleEnv sampleOptions).run sampleEditedDisk =
    (.ok sampleTx, sampleApplied) := by
  obtain ⟨hc, hp, hm, hk⟩ := samplePaths
  obtain ⟨hconf, hplan, hmeta, hmarker, hstate, hbase⟩ := sampleEditedDisk_bytes
  have hstagedPath : sampleMetadata.stagedConfig = "/g/pacman.conf" := hc
  have hplanPath : sampleMetadata.planPath = "/g/transaction-plan.txt" := hp
  have hrecovered : (recoverPending sampleSha256 sampleOptions).run sampleEditedDisk = (.ok (), sampleEditedDisk) := by
    rw [recoverPending, readFile, Prog.run_read_bind, hk, hmarker]
    rfl
  have hstart : stateForChannel .zero sampleTx.channel = .zero := rfl
  have hfits : sampleState.Fits := saved_fits localState_zero_fits
    (appliedState_fits sampleSha256 sampleEnv localState_zero_fits (resolveAt_fits sample_resolved)
      sampleEdited) sampleTx.channel
  have hcheck : checkBaseConfig sampleSha256 sampleMetadata sampleBase = .ok () := by
    have hsame : sha256Hex sampleSha256 sampleBase = sampleMetadata.baseConfigSha256 := stageMetadata_base ..
    have hdigest : sha256Hex sampleSha256 samplePlan = sampleMetadata.planSha256 := stageMetadata_plan ..
    rw [checkBaseConfig, if_neg (not_not.mpr hsame), hstagedPath, hplanPath, ← hdigest, if_neg (by decide), if_neg]
    rintro (h | h)
    · exact absurd h (by decide)
    · exact sha256Hex_ne _ h
  have hcheckPlan : checkPlan sampleSha256 sampleMetadata (sampleEditedDisk.bytes sampleMetadata.planPath) = .ok () := by
    have hdigest : sha256Hex sampleSha256 samplePlan = sampleMetadata.planSha256 := stageMetadata_plan ..
    rw [hplanPath, hplan, checkPlan, Option.map_some, hdigest, if_pos rfl]
  refine apply_run .zero sampleBase sampleEdited 0o644 (pacmanArgs "/g/pacman.conf" false false) hrecovered (by rw [hm, hmeta]; exact sample_checked)
    sample_restaged (by rw [show sampleOptions.statePath = "/s" from rfl, hstate]; rfl) (by decide) hbase hcheck
    hcheckPlan (by rw [hstagedPath]; exact hconf) sample_repositories ?_ rfl ?_
  · rw [hstagedPath, hstart, sample_rollback]
  · rw [hstart]
    exact commit_run sampleOptions_apart (by decide) (by decide) hfits (saved_digest ..) (by rw [hstagedPath]; decide)
      (by rw [hk]; exact hmarker) (by rw [hstagedPath]; exact hconf)

theorem sample_not_rewritten :
    ¬AppliesRewritten sampleOptions (recovered sampleSha256 sampleOptions sampleEditedDisk) sampleApplied sampleTx := by
  obtain ⟨hconf, hplan, hmeta, hmarker, hstate, hbase⟩ := sampleEditedDisk_bytes
  have hrecovered : recovered sampleSha256 sampleOptions sampleEditedDisk = sampleEditedDisk := by
    rw [recovered, recoverPending, readFile, Prog.run_read_bind, samplePaths.2.2.2, hmarker]
    rfl
  have hrendered : rewriteConfig sampleBase sampleTx.repositories = .ok sampleRendered.1 := sampleRendered.2
  rintro ⟨config, args, hrewritten, -, hconfig⟩
  rw [show sampleApplied.bytes sampleOptions.configPath = some sampleEdited from
    committedDisk_config sampleOptions_apart _] at hconfig
  rw [hrecovered, rewrittenConfig, Disk.bytes, show sampleOptions.configPath = "/c" from rfl, hbase] at hrewritten
  simp only [Option.map_some, Option.bind_some, hrendered] at hrewritten
  exact absurd ((Option.some.inj hrewritten).trans (Option.some.inj hconfig).symm) (by decide)

/-- The edited file does not hold the rewritten configuration, and so that is not applied. -/
theorem edited_config_not_staged : ¬StagedRewritten noLiteral sampleSha256 sampleClient sampleEnv sampleOptions
    (recovered sampleSha256 sampleOptions sampleEditedDisk) :=
  fun h => sample_not_rewritten ((applies_rewritten_iff sampleOptions_apart sample_applied).mpr h)

/-- The edited configuration is what pacman is run with and what is installed. -/
theorem edited_config_applied :
    ∃ staged applied tx plan,
      (stage noLiteral sampleSha256 sampleClient sampleEnv sampleOptions).run sampleDisk = (.ok (tx, plan), staged) ∧
      (apply noLiteral sampleSha256 sampleClient sampleEnv sampleOptions).run
        (staged.write (stagedConfigPath sampleOptions) ⟨sampleEdited, 0o644⟩) = (.ok tx, applied) ∧
      ¬AppliesRewritten sampleOptions (recovered sampleSha256 sampleOptions
        (staged.write (stagedConfigPath sampleOptions) ⟨sampleEdited, 0o644⟩)) applied tx :=
  ⟨sampleStaged, sampleApplied, sampleTx, samplePlan, sample_staged, sample_applied, sample_not_rewritten⟩

end Edited

end Omapkg.Client
