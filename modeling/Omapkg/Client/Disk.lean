import Omapkg.Client.StateFile
import Omapkg.Lib.Prog
/-!
# Files of the client

The disk as the client changes it: whole files come and go at once, by rename
and remove. An operation that fails otherwise than for the files it finds ends
a run like a crash, with the disk of that moment.
-/

namespace Omapkg.Client

open Utf Record

/-! ## The disk -/

structure File where
  bytes : Bytes
  mode : Nat
  deriving DecidableEq

/-- A run of `pacman`: the configuration it read and its arguments. -/
structure PacmanCall where
  config : Option Bytes
  args : List String
  deriving DecidableEq

structure Disk where
  files : String → Option File
  calls : List PacmanCall

namespace Disk

def bytes (d : Disk) (path : String) : Option Bytes := (d.files path).map File.bytes

def write (d : Disk) (path : String) (file : File) : Disk :=
  { d with files := fun p => if p = path then some file else d.files p }

def remove (d : Disk) (path : String) : Disk :=
  { d with files := fun p => if p = path then none else d.files p }

def called (d : Disk) (call : PacmanCall) : Disk := { d with calls := d.calls ++ [call] }

@[simp] theorem bytes_write_self (d : Disk) (path : String) (file : File) :
    (d.write path file).bytes path = some file.bytes := by simp [bytes, write]

theorem bytes_write_ne (d : Disk) {path p : String} (h : p ≠ path) (file : File) :
    (d.write path file).bytes p = d.bytes p := by simp [bytes, write, h]

@[simp] theorem bytes_remove_self (d : Disk) (path : String) : (d.remove path).bytes path = none := by
  simp [bytes, remove]

theorem bytes_remove_ne (d : Disk) {path p : String} (h : p ≠ path) : (d.remove path).bytes p = d.bytes p := by
  simp [bytes, remove, h]

@[simp] theorem bytes_called (d : Disk) (call : PacmanCall) (p : String) : (d.called call).bytes p = d.bytes p := rfl

@[simp] theorem files_called (d : Disk) (call : PacmanCall) : (d.called call).files = d.files := rfl

@[simp] theorem calls_write (d : Disk) (path : String) (file : File) : (d.write path file).calls = d.calls := rfl

@[simp] theorem calls_remove (d : Disk) (path : String) : (d.remove path).calls = d.calls := rfl

end Disk

/-! ## Operations -/

/-- A program of the client. -/
abbrev Run (α : Type) := Prog Disk GoError α

def notExist : GoError := .new "file does not exist"

def readFile (path : String) : Run (Option Bytes) := Prog.read fun d => d.bytes path

/-- `os.ReadFile` of a file that has to be there. -/
def readExisting (path : String) : Run Bytes := do
  match ← readFile path with
  | some data => .done data
  | none => .fail notExist

def atomicWrite (path : String) (data : Bytes) (mode : Nat) : Run Unit :=
  if path = "" then .fail (.new "output path is empty") else Prog.modify fun d => d.write path ⟨data, mode⟩

def removeFile (path : String) : Run Unit :=
  .step (fun d => d.remove path) fun d => if (d.files path).isNone then .fail notExist else .done ()

/-! ## Staged transactions -/

structure TransactionOptions where
  manifestUrl : String
  discoveryUrl : String
  configPath : String
  statePath : String
  stageDir : String
  pacman : String

structure StageMetadata where
  schemaVersion : Int
  manifestUrl : String
  signatureUrl : String
  channel : String
  manifestSha256 : String
  baseConfigSha256 : String
  stagedConfig : String
  planPath : String
  planSha256 : String
  stagedAt : Int
  rollbackAuthorized : Bool
  deriving DecidableEq

def StageMetadata.zero : StageMetadata := ⟨0, "", "", "", "", "", "", "", "", 0, false⟩

def stageMetadataCodec : Codec StageMetadata :=
  record foldEqual
    [field "schemaVersion" int64Codec (·.schemaVersion) fun a m => { m with schemaVersion := a },
      field "manifestUrl" stringCodec (·.manifestUrl) fun a m => { m with manifestUrl := a },
      omitted (· = "") (field "signatureUrl" stringCodec (·.signatureUrl) fun a m => { m with signatureUrl := a })
        (·.signatureUrl),
      field "channel" stringCodec (·.channel) fun a m => { m with channel := a },
      field "manifestSha256" stringCodec (·.manifestSha256) fun a m => { m with manifestSha256 := a },
      field "baseConfigSha256" stringCodec (·.baseConfigSha256) fun a m => { m with baseConfigSha256 := a },
      field "stagedConfig" stringCodec (·.stagedConfig) fun a m => { m with stagedConfig := a },
      field "planPath" stringCodec (·.planPath) fun a m => { m with planPath := a },
      field "planSha256" stringCodec (·.planSha256) fun a m => { m with planSha256 := a },
      field "stagedAt" int64Codec (·.stagedAt) fun a m => { m with stagedAt := a },
      field "rollbackAuthorized" boolCodec (·.rollbackAuthorized) fun a m => { m with rollbackAuthorized := a }]

/-! ## The commit marker -/

structure CommitMarker where
  schemaVersion : Int
  configPath : String
  stagedConfig : String
  statePath : String
  configMode : Nat
  state : LocalState
  deriving DecidableEq

def CommitMarker.zero : CommitMarker := ⟨0, "", "", "", 0, .zero⟩

def markerFields : List (Slot CommitMarker) :=
  [field "schemaVersion" int64Codec (·.schemaVersion) fun a m => { m with schemaVersion := a },
    field "configPath" stringCodec (·.configPath) fun a m => { m with configPath := a },
    field "stagedConfig" stringCodec (·.stagedConfig) fun a m => { m with stagedConfig := a },
    field "statePath" stringCodec (·.statePath) fun a m => { m with statePath := a },
    field "configMode" uint32Codec (·.configMode) fun a m => { m with configMode := a },
    field "state" localStateCodec (·.state) fun a m => { m with state := a }]

def commitMarkerCodec : Codec CommitMarker := record foldEqual markerFields

/-- A marker is read back as it was written. -/
theorem unmarshal_marker {m : CommitMarker} (hv : m.schemaVersion = 1) (hm : m.configMode < 2 ^ 32)
    (hs : m.state.Fits) : unmarshal commitMarkerCodec .zero (marshal commitMarkerCodec m) = some m := by
  have hnames : Record.Distinct foldEqual (markerFields.map Slot.name) := by decide +kernel
  have hversion : -2 ^ 63 ≤ m.schemaVersion ∧ m.schemaVersion < 2 ^ 63 := by
    rw [hv]
    decide
  refine unmarshal_marshal (le_trans (record_depth (d := 3) fun f hf v hv => ?_) (by decide))
    (record_reads hnames ⟨field_reads (int64Codec_reads hversion _), field_reads rfl, field_reads rfl, field_reads rfl,
      field_reads (uint32Codec_reads hm _), field_reads (localState_reads hs), trivial⟩ rfl)
  simp only [markerFields, List.mem_cons, List.not_mem_nil, or_false] at hf
  rcases hf with rfl | rfl | rfl | rfl | rfl | rfl
  all_goals obtain rfl := Option.some.inj hv
  · exact Nat.zero_le _
  · exact Nat.zero_le _
  · exact Nat.zero_le _
  · exact Nat.zero_le _
  · exact Nat.zero_le _
  · exact localState_depth m.state

end Omapkg.Client
