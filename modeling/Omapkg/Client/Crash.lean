import Omapkg.Client.Apply
/-!
# Crashes of Apply

Wherever `apply` stops, and however often `recoverPending` is started and
stops after it: if a marker was written, the first recovery that completes
leaves the staged configuration installed and the marker's state saved, and if
none was, the configuration and the state are what they were.
-/

namespace Omapkg.Client

open Utf Relation

section
variable (literal : List Char → Option (List Char)) (sha256 : Bytes → Hash.Digest) (client : ManifestClient)
  (env : Env)

/-! ## Steps of apply -/

/-- One step of `apply`: one of `recoverPending`, or the writing of a marker. -/
def CommitStep (options : TransactionOptions) (d d' : Disk) : Prop :=
  RecoverStep sha256 options d d' ∨ ∃ file, d' = d.write (markerPath options) file

section
variable {sha256} {options : TransactionOptions}

theorem commit_ok (ho : options.Apart) (marker : CommitMarker) (d : Disk) :
    Prog.Ok Eq (CommitStep sha256 options) (fun _ _ => True) (commit sha256 options marker) d := by
  refine Prog.ok_bind (fun _ => rfl) (Prog.ok_mapError (atomicWrite_ok (.inr ⟨_, rfl⟩))) ?_
  rintro _ d' rfl
  exact ((recoverPending_ok ho _).mono fun _ _ h => .inl h).imp fun _ _ _ => trivial

theorem readConfig_ok {G : Disk → Disk → Prop} {path : String} {d : Disk} (hG : G d d) :
    Prog.Ok Eq G (fun _ d' => d' = d) (readConfig path) d := by
  refine Prog.ok_read_bind ?_
  rintro _ rfl
  refine ⟨hG, ?_⟩
  cases d.files path with
  | none => trivial
  | some file => exact fun _ h => h.symm

/-- Before it commits, `apply` only reads and runs pacman. -/
theorem apply_steps (ho : options.Apart) (d : Disk) :
    Prog.Ok Eq (CommitStep sha256 options) (fun _ _ => True) (apply literal sha256 client env options) d := by
  have hquiet (d : Disk) : CommitStep sha256 options d d := .inl (.quiet d d fun _ => rfl)
  refine Prog.ok_bind (fun _ => rfl) ((recoverPending_ok ho d).mono fun _ _ h => .inl h) fun _ d _ => ?_
  refine Prog.ok_read_bind ?_
  rintro _ rfl
  refine ⟨hquiet d, Prog.ok_ofExcept_bind fun metadata _ => Prog.ok_ofExcept_bind fun tx _ => Prog.ok_read_bind ?_⟩
  rintro _ rfl
  refine ⟨hquiet d, Prog.ok_ofExcept_bind fun stored _ => Prog.ok_ofExcept_bind fun _ _ => ?_⟩
  refine Prog.ok_bind (fun _ => rfl) (readConfig_ok (hquiet d)) ?_
  rintro ⟨config, mode⟩ _ rfl
  refine Prog.ok_ofExcept_bind fun _ _ => Prog.ok_read_bind ?_
  rintro _ rfl
  refine ⟨hquiet _, Prog.ok_ofExcept_bind fun _ _ => Prog.ok_read_bind ?_⟩
  rintro _ rfl
  refine ⟨hquiet _, Prog.ok_ofExcept_bind fun _ _ => Prog.ok_ofExcept_bind fun _ _ => ?_⟩
  rintro _ rfl
  refine ⟨.inl (.quiet _ _ fun _ => rfl), Prog.ok_ofExcept_bind fun _ _ => ?_⟩
  refine Prog.ok_bind (fun _ => rfl) (Prog.ok_mapError (readExisting_ok (hquiet _))) ?_
  rintro newConfig _ ⟨rfl, -⟩
  exact Prog.ok_bind (fun _ => rfl) (commit_ok ho _ _) fun _ _ _ _ _ => trivial

end

/-! ## Markers seen -/

/-- The marker that was on the disk last, of the states `f 0` to `f n`. -/
def lastMarker (options : TransactionOptions) (f : Nat → Disk) : Nat → Option Bytes
  | 0 => (f 0).bytes (markerPath options)
  | n + 1 => ((f (n + 1)).bytes (markerPath options)).or (lastMarker options f n)

/-- What holds of a disk, by the marker that was seen last. -/
def Recoverable (options : TransactionOptions) (start : Disk) (last : Option Bytes) (d : Disk) : Prop :=
  match last with
  | none => d.bytes (markerPath options) = none ∧ d.files options.configPath = start.files options.configPath ∧
      d.files options.statePath = start.files options.statePath
  | some data => Settles sha256 options data d

/-- What a recovery leaves that completes with the marker of `data` seen last,
the disk having been `stopped` before it. -/
def Recovered (options : TransactionOptions) (data : Bytes) (stopped final : Disk) : Prop :=
  final.bytes (markerPath options) = none ∧
    ∃ marker config, pendingMarker options data = .ok marker ∧ checkStagedConfig sha256 marker config = .ok () ∧
      final.bytes options.configPath = some config ∧
      final.bytes options.statePath = some (marshal localStateCodec marker.state) ∧
      (marker.stagedConfig ≠ options.statePath → marker.stagedConfig ≠ markerPath options →
        final.bytes marker.stagedConfig = some config ∧
          (marker.stagedConfig ≠ options.configPath → stopped.bytes marker.stagedConfig = some config))

section
variable {sha256} {options : TransactionOptions}

theorem Recoverable.recover (ho : options.Apart) {start d d' : Disk} {last : Option Bytes}
    (h : Recoverable sha256 options start last d) (hstep : RecoverStep sha256 options d d') :
    Recoverable sha256 options start last d' := by
  cases last with
  | none =>
    obtain ⟨hm, hconfig, hstate⟩ := h
    have hidle := hstep.idle hm
    refine ⟨?_, by rw [hidle, hconfig], by rw [hidle, hstate]⟩
    rw [Disk.bytes, hidle]
    exact hm
  | some data => exact Settles.next ho h hstep

theorem Recoverable.next (ho : options.Apart) {start d d' : Disk} {last : Option Bytes}
    (h : Recoverable sha256 options start last d) (hstep : CommitStep sha256 options d d') :
    Recoverable sha256 options start ((d'.bytes (markerPath options)).or last) d' := by
  cases hm : d'.bytes (markerPath options) with
  | some data => exact .inl hm
  | none =>
    rcases hstep with hstep | ⟨file, rfl⟩
    · exact h.recover ho hstep
    · rw [Disk.bytes_write_self] at hm
      exact absurd hm (Option.some_ne_none _)

theorem recoverable_stop (ho : options.Apart) (start : Disk) (n : Nat) :
    Recoverable sha256 options start
      (lastMarker options (fun k => (apply literal sha256 client env options).stop k start) n)
      ((apply literal sha256 client env options).stop n start) := by
  have hok : Prog.Ok Eq (CommitStep sha256 options) _ _ start := apply_steps literal client env ho start
  have hquiet (d : Disk) : CommitStep sha256 options d d := .inl (.quiet d d fun _ => rfl)
  induction n with
  | zero =>
    rw [lastMarker, Prog.stop_zero]
    cases hm : start.bytes (markerPath options) with
    | none => exact ⟨hm, rfl, rfl⟩
    | some data => exact .inl hm
  | succ n ih =>
    rw [lastMarker]
    rcases hok.stop_succ (fun _ => rfl) n with hsame | hstep
    · rw [hsame]
      exact ih.next ho (hquiet _)
    · exact ih.next ho hstep

/-- A disk after recoveries that each stop after so many steps. -/
def recoveries (sha256 : Bytes → Hash.Digest) (options : TransactionOptions) (crashes : List Nat) (d : Disk) : Disk :=
  crashes.foldl (fun d m => (recoverPending sha256 options).stop m d) d

theorem recoveries_steps (ho : options.Apart) (crashes : List Nat) (d : Disk) :
    ReflTransGen (RecoverStep sha256 options) d (recoveries sha256 options crashes d) := by
  induction crashes generalizing d with
  | nil => exact .refl
  | cons m crashes ih => exact ((recoverPending_ok ho d).stop (fun _ => rfl) m).trans (ih _)

theorem Recoverable.recovers (ho : options.Apart) {start d d' : Disk} {last : Option Bytes}
    (h : Recoverable sha256 options start last d) (hsteps : ReflTransGen (RecoverStep sha256 options) d d') :
    Recoverable sha256 options start last d' := by
  induction hsteps with
  | refl => exact h
  | tail _ hstep ih => exact ih.recover ho hstep

theorem recover_other {d d' : Disk} (hsteps : ReflTransGen (RecoverStep sha256 options) d d') {p : String}
    (hp : p ≠ options.configPath ∧ p ≠ options.statePath ∧ p ≠ markerPath options) : d'.bytes p = d.bytes p := by
  induction hsteps with
  | refl => rfl
  | tail _ hstep ih => rw [hstep.other hp, ih]

theorem Settles.recovered {data : Bytes} {stopped final : Disk} (h : Settles sha256 options data final)
    (hsteps : ReflTransGen (RecoverStep sha256 options) stopped final)
    (hgone : final.bytes (markerPath options) = none) : Recovered sha256 options data stopped final := by
  rcases h with hm | ⟨-, marker, config, hp, hcheck, hstaged, hconfig, hstate⟩
  · exact absurd (hm.symm.trans hgone) (Option.some_ne_none _)
  · refine ⟨hgone, marker, config, hp, hcheck, hconfig, hstate, fun h1 h2 => ⟨hstaged h1 h2, fun h3 => ?_⟩⟩
    rw [← recover_other hsteps ⟨h3, h1, h2⟩]
    exact hstaged h1 h2

end

/-- `apply` may stop after any number of steps, and so may each recovery after
it. -/
theorem apply_crash_recovers {options : TransactionOptions} (ho : options.Apart) (start : Disk) (n : Nat) (crashes : List Nat) :
    let stopped := fun k => (apply literal sha256 client env options).stop k start
    let crashed := recoveries sha256 options crashes (stopped n)
    match lastMarker options stopped n with
    | none =>
      crashed.files options.configPath = start.files options.configPath ∧
        crashed.files options.statePath = start.files options.statePath
    | some data => ∀ final, (recoverPending sha256 options).run crashed = (.ok (), final) →
      Recovered sha256 options data (stopped n) final := by
  intro stopped crashed
  have hsteps : ReflTransGen (RecoverStep sha256 options) (stopped n) crashed := recoveries_steps ho crashes _
  have hcrashed := (recoverable_stop literal client env ho start n).recovers ho hsteps
  change Recoverable sha256 options start (lastMarker options stopped n) crashed at hcrashed
  cases hlast : lastMarker options stopped n with
  | none =>
    rw [hlast] at hcrashed
    exact hcrashed.2
  | some data =>
    rw [hlast] at hcrashed
    intro final hrun
    have hok : Prog.Ok Eq (RecoverStep sha256 options) (fun _ d => d.bytes (markerPath options) = none)
      (recoverPending sha256 options) crashed := recoverPending_ok ho crashed
    obtain ⟨hfinal, hgone⟩ := hok.run fun _ => rfl
    rw [hrun] at hfinal hgone
    have hsettles : Settles sha256 options data final := hcrashed.recovers ho hfinal
    exact hsettles.recovered (hsteps.trans hfinal) (hgone () rfl)

end

/-! ### A pending marker -/

/-- The paths of `parseCommon`. -/
def defaultOptions : TransactionOptions where
  manifestUrl := ""
  discoveryUrl := ""
  configPath := "/etc/pacman.conf"
  statePath := "/var/lib/omarchy/manifest-state.json"
  stageDir := "/var/lib/omarchy/manifest-stage"
  pacman := "pacman"

theorem defaultOptions_apart : defaultOptions.Apart := ⟨by decide, by decide⟩

def sameDigest : Hash.Digest := ⟨List.replicate 32 0x11, rfl⟩

/-- A marker that is left to do, where every file has the same digest. -/
def pendingCommit : CommitMarker where
  schemaVersion := 1
  configPath := defaultOptions.configPath
  stagedConfig := stagedConfigPath defaultOptions
  statePath := defaultOptions.statePath
  configMode := 0o644
  state := saveChannelState .zero "stable" { LocalState.zero with
    schemaVersion := 1
    sequence := 1
    configSha256 := sameDigest.hex }

def pendingDisk : Disk where
  files path :=
    if path = markerPath defaultOptions then some ⟨marshal commitMarkerCodec pendingCommit, 0o600⟩
    else if path = stagedConfigPath defaultOptions then some ⟨utf8 "[core]\n", 0o600⟩
    else none
  calls := []

/-- A client that reaches nothing. -/
def offline : Env where
  get _ _ := .error notExist
  discover _ _ := .error notExist
  gpg _ _ _ := .error notExist
  pacman _ _ _ := ⟨[], false⟩
  now _ := 0

theorem pendingCommit_read :
    pendingMarker defaultOptions (marshal commitMarkerCodec pendingCommit) = .ok pendingCommit := by
  have hfits : pendingCommit.state.Fits := by
    refine ⟨⟨?_, ?_, ?_, ?_⟩, ?_, ?_, ?_⟩
    · decide
    · decide
    · decide
    · decide
    · decide
    · exact List.pairwise_singleton _ _
    · rintro e he
      obtain rfl := List.mem_singleton.mp he
      exact ⟨by decide, by decide, by decide, by decide⟩
  rw [pendingMarker, unmarshal_marker rfl (by decide) hfits]
  exact if_neg (by decide +kernel)

/-- A recovery that stops after its first step, and the next one. -/
theorem pendingDisk_recovers :
    ∃ final, (recoverPending (fun _ => sameDigest) defaultOptions).run
        (recoveries (fun _ => sameDigest) defaultOptions [1] pendingDisk) = (.ok (), final) ∧
      Recovered (fun _ => sameDigest) defaultOptions (marshal commitMarkerCodec pendingCommit) pendingDisk final := by
  have hmarker : pendingDisk.bytes (markerPath defaultOptions) = some (marshal commitMarkerCodec pendingCommit) := rfl
  have hstaged : pendingDisk.bytes pendingCommit.stagedConfig = some (utf8 "[core]\n") := by
    have hne : stagedConfigPath defaultOptions ≠ markerPath defaultOptions := by decide +kernel
    rw [show pendingCommit.stagedConfig = stagedConfigPath defaultOptions from rfl, Disk.bytes, pendingDisk]
    simp only [if_neg hne, if_true, Option.map_some]
  have hsame : recoveries (fun _ => sameDigest) defaultOptions [1] pendingDisk = pendingDisk := by
    rw [recoveries, List.foldl_cons, List.foldl_nil, recoverPending, readFile, Prog.stop_read_bind, Prog.stop_zero]
  have hcheck : checkStagedConfig (fun _ => sameDigest) pendingCommit (utf8 "[core]\n") = .ok () :=
    if_neg (by decide +kernel)
  have hrun := recoverPending_run defaultOptions_apart (by decide) hmarker pendingCommit_read hstaged hcheck
  have h := apply_crash_recovers (fun _ => none) (fun _ => sameDigest) ⟨"", false, "x86_64", "", "stable", ""⟩
    offline defaultOptions_apart pendingDisk 0 [1]
  rw [← hsame] at hrun
  refine ⟨_, hrun, ?_⟩
  simp only [lastMarker, Prog.stop_zero, hmarker] at h
  exact h _ hrun

end Omapkg.Client
