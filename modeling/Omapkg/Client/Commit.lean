import Omapkg.Client.Disk
/-!
# Committing a transaction

Once pacman has run, a marker is written that says what is left to do:
`recoverPending` installs the staged configuration, writes the state and takes
the marker away. It may stop anywhere and start again; `CommitStep` says what
each of its steps does to the disk, and `Settles` what holds in between.
-/

namespace Omapkg.Client

open Utf Record Relation

/-! ## recoverPending -/

def markerPath (options : TransactionOptions) : String := options.statePath ++ ".commit"

def invalidMarker : GoError := .new "pending manifest commit marker is invalid"

/-- The marker in a file, where it is one of these paths. -/
def pendingMarker (options : TransactionOptions) (data : Bytes) : Except GoError CommitMarker :=
  match unmarshal commitMarkerCodec .zero data with
  | none => .error invalidMarker
  | some marker =>
    if marker.schemaVersion ≠ 1 ∨ marker.configPath ≠ options.configPath ∨ marker.statePath ≠ options.statePath ∨
        marker.stagedConfig = "" then
      .error invalidMarker
    else .ok marker

section
variable (sha256 : Bytes → Hash.Digest)

def writeState (path : String) (state : LocalState) : Run Unit :=
  atomicWrite path (marshal localStateCodec state) 0o600

/-- What a marker leaves to do, the staged configuration being `config`. -/
def installMarker (options : TransactionOptions) (marker : CommitMarker) (config : Bytes) : Run Unit := do
  (atomicWrite marker.configPath config (if marker.configMode = 0 then 0o644 else marker.configMode)).mapError
    (.wrap "recover pending pacman config")
  (writeState marker.statePath marker.state).mapError (.wrap "recover pending manifest state")
  removeFile (markerPath options)

/-- Whether the staged configuration is the one the marker was written for. -/
def checkStagedConfig (marker : CommitMarker) (config : Bytes) : Except GoError Unit :=
  if marker.state.configSha256 = "" ∨ sha256Hex sha256 config ≠ marker.state.configSha256 then
    .error (.new "pending manifest commit config digest is invalid")
  else .ok ()

def recoverPending (options : TransactionOptions) : Run Unit := do
  match ← readFile (markerPath options) with
  | none => .done ()
  | some data =>
    let marker ← Prog.ofExcept (pendingMarker options data)
    let config ← (readExisting marker.stagedConfig).mapError (.wrap "recover pending staged config")
    Prog.ofExcept (checkStagedConfig sha256 marker config)
    installMarker options marker config

/-! ## Steps -/

/-- One step of `recoverPending`. Whether the staged configuration is still
there once the state is written depends on its not being the state itself. -/
inductive RecoverStep (options : TransactionOptions) : Disk → Disk → Prop where
  | quiet (d d' : Disk) : (∀ p, d'.files p = d.files p) → RecoverStep options d d'
  | config (d : Disk) (data : Bytes) (marker : CommitMarker) (config : Bytes) (mode : Nat) :
      d.bytes (markerPath options) = some data → pendingMarker options data = .ok marker →
      RecoverStep options d (d.write options.configPath ⟨config, mode⟩)
  | state (d : Disk) (data : Bytes) (state : LocalState) :
      d.bytes (markerPath options) = some data →
      RecoverStep options d (d.write options.statePath ⟨marshal localStateCodec state, 0o600⟩)
  | clear (d : Disk) (data : Bytes) (marker : CommitMarker) (config : Bytes) :
      d.bytes (markerPath options) = some data → pendingMarker options data = .ok marker →
      checkStagedConfig sha256 marker config = .ok () →
      (marker.stagedConfig ≠ options.statePath → d.bytes marker.stagedConfig = some config) →
      d.bytes options.configPath = some config →
      d.bytes options.statePath = some (marshal localStateCodec marker.state) →
      RecoverStep options d (d.remove (markerPath options))

/-- Of a transaction of which the marker was written, either the marker is
still there or all that it says is done. -/
def Settles (options : TransactionOptions) (data : Bytes) (d : Disk) : Prop :=
  d.bytes (markerPath options) = some data ∨ (d.bytes (markerPath options) = none ∧
    ∃ marker config, pendingMarker options data = .ok marker ∧ checkStagedConfig sha256 marker config = .ok () ∧
      (marker.stagedConfig ≠ options.statePath → marker.stagedConfig ≠ markerPath options →
        d.bytes marker.stagedConfig = some config) ∧
      d.bytes options.configPath = some config ∧
      d.bytes options.statePath = some (marshal localStateCodec marker.state))

/-- The configuration, the state and the marker are three files. -/
structure TransactionOptions.Apart (options : TransactionOptions) : Prop where
  config_state : options.configPath ≠ options.statePath
  config_marker : options.configPath ≠ markerPath options

theorem markerPath_ne (options : TransactionOptions) : markerPath options ≠ options.statePath := by
  intro h
  have hl := congrArg (fun s => s.toList.length) h
  simp [markerPath] at hl

theorem pendingMarker_ok {options : TransactionOptions} {data : Bytes} {marker : CommitMarker}
    (h : pendingMarker options data = .ok marker) :
    unmarshal commitMarkerCodec .zero data = some marker ∧ marker.configPath = options.configPath ∧
      marker.statePath = options.statePath := by
  unfold pendingMarker at h
  split at h
  · cases h
  · rename_i m hm
    split_ifs at h with hc
    obtain rfl := Except.ok.inj h
    simp only [not_or, not_not] at hc
    exact ⟨hm, hc.2.1, hc.2.2.1⟩

section
variable {sha256} {options : TransactionOptions}

/-! Alone on the disk, an operation goes on from where it started. -/

theorem readExisting_ok {G : Disk → Disk → Prop} {path : String} {d : Disk} (hG : G d d) :
    Prog.Ok Eq G (fun data d' => d' = d ∧ d.bytes path = some data) (readExisting path) d := by
  refine Prog.ok_read_bind ?_
  rintro _ rfl
  refine ⟨hG, ?_⟩
  cases hp : d.bytes path with
  | none => trivial
  | some data =>
    rintro _ rfl
    exact ⟨rfl, rfl⟩

theorem atomicWrite_ok {G : Disk → Disk → Prop} {path : String} {data : Bytes} {mode : Nat} {d : Disk}
    (hG : G d (d.write path ⟨data, mode⟩)) :
    Prog.Ok Eq G (fun _ d' => d' = d.write path ⟨data, mode⟩) (atomicWrite path data mode) d := by
  unfold atomicWrite
  split
  · trivial
  · rintro _ rfl
    exact ⟨hG, fun _ h => h.symm⟩

theorem removeFile_ok {G : Disk → Disk → Prop} {path : String} {d : Disk} (hG : G d (d.remove path)) :
    Prog.Ok Eq G (fun _ d' => d' = d.remove path) (removeFile path) d := by
  rintro _ rfl
  refine ⟨hG, ?_⟩
  cases hp : (d.files path).isNone with
  | true => simp only [hp, if_true]; trivial
  | false => simp only [hp]; exact fun _ h => h.symm

/-- Installing what a marker says, with the marker there. -/
theorem installMarker_ok (ho : options.Apart) {d : Disk} {data config : Bytes} {marker : CommitMarker}
    (hd : d.bytes (markerPath options) = some data) (hm : pendingMarker options data = .ok marker)
    (hstaged : d.bytes marker.stagedConfig = some config) (hcheck : checkStagedConfig sha256 marker config = .ok ()) :
    Prog.Ok Eq (RecoverStep sha256 options) (fun _ d => d.bytes (markerPath options) = none)
      (installMarker options marker config) d := by
  obtain ⟨-, hconfig, hstate⟩ := pendingMarker_ok hm
  unfold installMarker
  rw [hconfig, hstate]
  refine Prog.ok_bind (fun _ => rfl) (Prog.ok_mapError (atomicWrite_ok (.config d data marker config _ hd hm))) ?_
  rintro _ d₁ rfl
  have hd₁ (mode : Nat) : (d.write options.configPath ⟨config, mode⟩).bytes (markerPath options) = some data := by
    rw [Disk.bytes_write_ne _ ho.config_marker.symm, hd]
  refine Prog.ok_bind (fun _ => rfl) (Prog.ok_mapError (atomicWrite_ok (.state _ data marker.state (hd₁ _)))) ?_
  rintro _ d₂ rfl
  refine Prog.Ok.imp ?_ (removeFile_ok (.clear _ data marker config ?_ hm hcheck (fun hne => ?_) ?_ ?_))
  · rintro _ _ rfl
    exact Disk.bytes_remove_self _ _
  · rw [Disk.bytes_write_ne _ (markerPath_ne options), hd₁]
  · rw [Disk.bytes_write_ne _ hne]
    by_cases hc : marker.stagedConfig = options.configPath
    · rw [hc, Disk.bytes_write_self]
    · rw [Disk.bytes_write_ne _ hc, hstaged]
  · rw [Disk.bytes_write_ne _ ho.config_state, Disk.bytes_write_self]
  · rw [Disk.bytes_write_self]

/-- Every step of `recoverPending` is one of these, and it ends without a
marker. -/
theorem recoverPending_ok (ho : options.Apart) (d : Disk) :
    Prog.Ok Eq (RecoverStep sha256 options) (fun _ d => d.bytes (markerPath options) = none)
      (recoverPending sha256 options) d := by
  have hquiet (d : Disk) : RecoverStep sha256 options d d := .quiet d d fun _ => rfl
  refine Prog.ok_read_bind ?_
  rintro _ rfl
  refine ⟨hquiet d, ?_⟩
  cases hd : d.bytes (markerPath options) with
  | none =>
    rintro _ rfl
    exact hd
  | some data =>
    refine Prog.ok_ofExcept_bind fun marker hm => ?_
    refine Prog.ok_bind (fun _ => rfl) (Prog.ok_mapError (readExisting_ok (hquiet d))) ?_
    rintro config _ ⟨rfl, hstaged⟩
    refine Prog.ok_ofExcept_bind fun _ hcheck => ?_
    exact installMarker_ok ho hd hm hstaged hcheck

/-- With all in place that the marker says, recovery does it. -/
theorem recoverPending_run (ho : options.Apart) (hpaths : options.configPath ≠ "" ∧ options.statePath ≠ "")
    {d : Disk} {data config : Bytes} {marker : CommitMarker} (hd : d.bytes (markerPath options) = some data)
    (hm : pendingMarker options data = .ok marker) (hstaged : d.bytes marker.stagedConfig = some config)
    (hcheck : checkStagedConfig sha256 marker config = .ok ()) :
    (recoverPending sha256 options).run d =
      (.ok (), ((d.write options.configPath ⟨config, if marker.configMode = 0 then 0o644 else marker.configMode⟩).write
        options.statePath ⟨marshal localStateCodec marker.state, 0o600⟩).remove (markerPath options)) := by
  obtain ⟨-, hconfig, hstate⟩ := pendingMarker_ok hm
  have hthere (file file' : File) :
      (((d.write options.configPath file).write options.statePath file').files (markerPath options)).isNone = false := by
    have h := Disk.bytes_write_ne (d.write options.configPath file) (markerPath_ne options) file'
    rw [Disk.bytes_write_ne _ ho.config_marker.symm, hd, Disk.bytes] at h
    cases hf : ((d.write options.configPath file).write options.statePath file').files (markerPath options) with
    | none => rw [hf] at h; exact absurd h.symm (Option.some_ne_none _)
    | some file => rfl
  rw [recoverPending, readFile, Prog.run_read_bind, hd]
  simp only [hm]
  refine Prog.run_ofExcept_bind_ok.mpr ⟨marker, rfl, ?_⟩
  refine Prog.run_bind_ok.mpr ⟨config, d, Prog.run_mapError_ok.mpr ?_, ?_⟩
  · rw [readExisting, readFile, Prog.run_read_bind, hstaged]
    rfl
  refine Prog.run_ofExcept_bind_ok.mpr ⟨(), hcheck, ?_⟩
  rw [installMarker, writeState, hconfig, hstate, atomicWrite, atomicWrite, if_neg hpaths.1, if_neg hpaths.2]
  refine Prog.run_bind_ok.mpr ⟨(), _, Prog.run_mapError_ok.mpr rfl, ?_⟩
  refine Prog.run_bind_ok.mpr ⟨(), _, Prog.run_mapError_ok.mpr rfl, ?_⟩
  rw [removeFile, Prog.run, hthere]
  rfl

/-! ## What settles -/

/-- What a step of `recoverPending` does to the marker. -/
theorem RecoverStep.marker (ho : options.Apart) {d d' : Disk} (h : RecoverStep sha256 options d d') :
    d'.bytes (markerPath options) = d.bytes (markerPath options) ∨ d'.bytes (markerPath options) = none := by
  cases h with
  | quiet d' hsame => exact .inl (by rw [Disk.bytes, hsame, Disk.bytes])
  | config => exact .inl (Disk.bytes_write_ne _ ho.config_marker.symm _)
  | state => exact .inl (Disk.bytes_write_ne _ (markerPath_ne options) _)
  | clear => exact .inr (Disk.bytes_remove_self _ _)

/-- Any other file stays. -/
theorem RecoverStep.other {d d' : Disk} (h : RecoverStep sha256 options d d') {p : String}
    (hp : p ≠ options.configPath ∧ p ≠ options.statePath ∧ p ≠ markerPath options) : d'.bytes p = d.bytes p := by
  cases h with
  | quiet d' hsame => rw [Disk.bytes, hsame, Disk.bytes]
  | config => exact Disk.bytes_write_ne _ hp.1 _
  | state => exact Disk.bytes_write_ne _ hp.2.1 _
  | clear => exact Disk.bytes_remove_ne _ hp.2.2

/-- Without a marker nothing happens. -/
theorem RecoverStep.idle {d d' : Disk} (h : RecoverStep sha256 options d d')
    (hd : d.bytes (markerPath options) = none) (p : String) : d'.files p = d.files p := by
  cases h with
  | quiet d' hsame => exact hsame p
  | config data _ _ _ hm => exact absurd (hm.symm.trans hd) (Option.some_ne_none _)
  | state data _ hm => exact absurd (hm.symm.trans hd) (Option.some_ne_none _)
  | clear data _ _ hm => exact absurd (hm.symm.trans hd) (Option.some_ne_none _)

theorem Settles.next (ho : options.Apart) {data : Bytes} {d d' : Disk} (h : Settles sha256 options data d)
    (hstep : RecoverStep sha256 options d d') : Settles sha256 options data d' := by
  rcases h with hm | ⟨hm, hdone⟩
  · rcases hstep.marker ho with hsame | hgone
    · exact .inl (hsame.trans hm)
    · cases hstep with
      | quiet d' hsame =>
        rw [Disk.bytes, hsame] at hgone
        exact absurd (hm.symm.trans hgone) (Option.some_ne_none _)
      | config =>
        rw [Disk.bytes_write_ne _ ho.config_marker.symm] at hgone
        exact absurd (hm.symm.trans hgone) (Option.some_ne_none _)
      | state =>
        rw [Disk.bytes_write_ne _ (markerPath_ne options)] at hgone
        exact absurd (hm.symm.trans hgone) (Option.some_ne_none _)
      | clear data' marker config hm' hp hcheck hstaged hconfig hstate =>
        obtain rfl := Option.some.inj (hm.symm.trans hm')
        refine .inr ⟨hgone, marker, config, hp, hcheck, fun h1 h2 => ?_, ?_, ?_⟩
        · rw [Disk.bytes_remove_ne _ h2, hstaged h1]
        · rw [Disk.bytes_remove_ne _ ho.config_marker, hconfig]
        · rw [Disk.bytes_remove_ne _ (markerPath_ne options).symm, hstate]
  · have hidle (p : String) : d'.bytes p = d.bytes p := by rw [Disk.bytes, hstep.idle hm p, Disk.bytes]
    refine .inr ⟨by rw [hidle, hm], ?_⟩
    obtain ⟨marker, config, hp, hcheck, hstaged, hconfig, hstate⟩ := hdone
    exact ⟨marker, config, hp, hcheck, fun h1 h2 => by rw [hidle, hstaged h1 h2], by rw [hidle, hconfig],
      by rw [hidle, hstate]⟩

end

end

end Omapkg.Client
