import Omapkg.Client.Transaction
/-!
# Replay state of the client

What `src/omarchy/manifest-client` remembers of the transactions it applied:
the state file, one state a channel in it, and the checks of a transaction
against the state of its channel.
-/

namespace Omapkg.Client

open Json

/-! ## Types -/

structure ChannelState where
  manifestSha256 : String
  releaseId : String
  systemVersion : String
  oprGeneration : String
  systemManifestSha256 : String
  oprManifestSha256 : String
  architecture : String
  sequence : Nat
  systemSequence : Nat
  oprSequence : Nat
  appliedAt : Int
  configSha256 : String
  recoveryTarget : String
  recoveryLimits : String
  deriving DecidableEq

/-- The state file: the flat state of the channel applied last, and the states
of all channels by ascending name. -/
structure LocalState extends ChannelState where
  schemaVersion : Int
  channel : String
  channels : List (String × ChannelState)
  deriving DecidableEq

def ChannelState.zero : ChannelState := ⟨"", "", "", "", "", "", "", 0, 0, 0, 0, "", "", ""⟩

def LocalState.zero : LocalState := ⟨.zero, 0, "", []⟩

/-! ## Channels -/

def localStateFromChannel (state : ChannelState) : LocalState := ⟨state, 1, "", []⟩

def channelStateFromLocal (state : LocalState) : ChannelState := state.toChannelState

def stateForChannel (state : LocalState) (channel : String) : LocalState :=
  match if channel = "" then none else state.channels.lookup channel with
  | some selected => localStateFromChannel selected
  | none =>
    if state.channel = channel ∨ (state.channel = "" ∧ channel = "stable") then state else .zero

def saveChannelState (state : LocalState) (channel : String) (selected : LocalState) : LocalState where
  toChannelState := selected.toChannelState
  schemaVersion := selected.schemaVersion
  channel := channel
  channels := setKey channel (channelStateFromLocal selected) state.channels

/-! ## Versions -/

/-- The white space `fmt` skips, line breaks aside. -/
def isGoSpace (c : Char) : Bool :=
  ['\t', '\x0b', '\x0c', '\r', ' ', '\u0085', '\u00A0', '\u1680', '\u2000', '\u2001', '\u2002', '\u2003', '\u2004',
    '\u2005', '\u2006', '\u2007', '\u2008', '\u2009', '\u200A', '\u2028', '\u2029', '\u202F', '\u205F', '\u3000'].contains c

/-- `fmt.Sscanf` of `%d` into an `int` that is 0; a line break ends it. -/
def sscanfInt (text : List Char) : Int :=
  let r := text.dropWhile isGoSpace
  match r with
  | '+' :: r => (parseInt64 [] (digits r)).getD 0
  | '-' :: r => (parseInt64 ['-'] (digits r)).getD 0
  | r => (parseInt64 [] (digits r)).getD 0

/-- `strings.Split` at a character. -/
def splitAt (separator : Char) : List Char → List (List Char)
  | [] => [[]]
  | c :: cs =>
    if c = separator then [] :: splitAt separator cs
    else
      match splitAt separator cs with
      | p :: ps => (c :: p) :: ps
      | [] => [[c]]

/-- `parse` of `compareSystemVersion`: the three numbers before the first
dash. -/
def parseVersionNumbers (value : String) : List Int :=
  let parts := splitAt '.' (value.toList.takeWhile (· ≠ '-'))
  (List.range 3).map fun index => ((parts[index]?).map sscanfInt).getD 0

/-- The first difference of two lists of numbers. -/
def compareNumbers : List Int → List Int → Int
  | a :: as, b :: bs => if a < b then -1 else if a > b then 1 else compareNumbers as bs
  | _, _ => 0

/-- `strings.Compare`. -/
def compareText (left right : String) : Int := if left = right then 0 else if left < right then -1 else 1

def compareSystemVersion (left right : String) : Int :=
  let numbers := compareNumbers (parseVersionNumbers left) (parseVersionNumbers right)
  if numbers ≠ 0 then numbers else compareText left right

/-! ## Freshness -/

def rollbackAllowed (state : LocalState) (tx : Transaction) : Bool :=
  tx.recovery.authorized && tx.recovery.reason ≠ "" && tx.recovery.target.isSome && state.manifestSha256 ≠ "" &&
    tx.recovery.fromDigest = state.manifestSha256 && tx.sequence > state.sequence

def validateFreshness (state : LocalState) (tx : Transaction) (rollbackAuthorized : Bool) : Except GoError Unit :=
  if state.schemaVersion = 0 then .ok ()
  else if state.architecture ≠ tx.architecture then
    .error (.new "manifest architecture differs from local state")
  else if tx.sequence ≤ state.sequence then
    .error (.new "manifest sequence is not newer than local high-water mark")
  else if tx.systemRef.sequence < state.systemSequence ∧
      (state.systemManifestSha256 = "" ∨ tx.systemRef.digest ≠ state.systemManifestSha256) ∧
      rollbackAuthorized = false then
    .error (.new "system manifest sequence moved backwards without signed rollback control")
  else if tx.systemRef.sequence = state.systemSequence ∧ state.systemManifestSha256 ≠ "" ∧
      tx.systemRef.digest ≠ state.systemManifestSha256 ∧ rollbackAuthorized = false then
    .error (.new "system sequence was reused for different bytes")
  else if tx.oprRef.sequence < state.oprSequence ∧
      (state.oprManifestSha256 = "" ∨ tx.oprRef.digest ≠ state.oprManifestSha256) ∧
      rollbackAuthorized = false then
    .error (.new "OPR manifest sequence moved backwards without signed rollback control")
  else if tx.oprRef.sequence = state.oprSequence ∧ state.oprManifestSha256 ≠ "" ∧
      tx.oprRef.digest ≠ state.oprManifestSha256 ∧ rollbackAuthorized = false then
    .error (.new "OPR sequence was reused for different bytes")
  else if state.systemVersion ≠ "" ∧ compareSystemVersion tx.identity.version state.systemVersion < 0 ∧
      rollbackAuthorized = false then
    .error (.new "unsafe system downgrade blocked")
  else .ok ()

end Omapkg.Client
