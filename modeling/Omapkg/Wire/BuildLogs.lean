import Omapkg.Client.GoJson
import Omapkg.Lib.TextChunks
import Omapkg.Server.Arch
import Omapkg.Server.Decoded
import Omapkg.Server.FactoryRuns
import Omapkg.Server.WorkerProtocol
/-!
# Build logs

`sendLogs` of `src/worker/main.go` against `appendJobLog` of
`src/src/lib/server/worker-results.ts`. The worker cuts a log into chunks of bytes and sends
each as a JSON text; a chunk that ends within a character is not the text it was cut from.
-/

namespace Omapkg.Wire.Logs

open Utf Json Prog
open Server (WorkerProtocolError JobStatus property)
open Client (goQuote reads_goQuote)

/-! ## The worker -/

/-- `16 << 10`. -/
def maxLogChunk : Nat := 16 * 1024

structure LogRequest where
  leaseToken : String
  sequence : Nat
  text : Bytes

/-- What `encoding/json` makes of a string: bytes that start no character become U+FFFD. -/
def jsonText (text : Bytes) : String := String.ofList (decode text)

def LogRequest.json (request : LogRequest) : Json String := .obj [
  ("leaseToken", .str request.leaseToken), ("sequence", .num (.ofNat request.sequence)), ("text", .str (jsonText request.text))]

def encodeJSON (request : LogRequest) : Bytes := encode (request.json.print goQuote)

/-- The requests of `sendLogs`, `sequence` being the next chunk's. -/
def logRequests (leaseToken : String) (sequence : Nat) : List Bytes → List LogRequest
  | [] => []
  | chunk :: rest => ⟨leaseToken, sequence, chunk⟩ :: logRequests leaseToken (sequence + 1) rest

/-! ## The server -/

/-- What is read of `builds` and of what it is joined with; `authorized` is what the other tables say. -/
structure LogBuild where
  id : String
  workerId : Option String
  leaseToken : Option String
  leaseExpiresAt : Option Int
  attempt : Nat
  status : JobStatus
  authorized : Bool

/-- A row of `build_logs`. -/
structure LogRow where
  buildId : String
  attempt : Nat
  sequence : Nat
  text : String
  createdAt : Int

/-- The tables and the clock. -/
structure LogState where
  clock : Int
  builds : List LogBuild
  activeWorkers : List String
  logs : List LogRow

def maxLogBytes : Nat := 64 * 1024

/-- `TextDecoder` without replacement, which drops a byte order mark, and `JSON.parse`. -/
def parseJsonRequest (body : Bytes) : Except WorkerProtocolError (Json String) :=
  let text := decode body
  if encode text ≠ body then .error ⟨400, "Invalid JSON"⟩
  else
    match parse text.length (if text.head? = some '\uFEFF' then text.tail else text) with
    | some (.obj ms, rest) => if skipWs rest = [] then .ok (.obj ms) else .error ⟨400, "Invalid JSON"⟩
    | some (_, rest) =>
      if skipWs rest = [] then .error ⟨400, "JSON body must be an object"⟩ else .error ⟨400, "Invalid JSON"⟩
    | none => .error ⟨400, "Invalid JSON"⟩

def requireExactKeys (allowed : List String) : Json String → Except WorkerProtocolError Unit
  | .obj ms => if ms.all (fun m => allowed.contains m.1) then .ok () else .error ⟨400, "Unexpected request field"⟩
  | _ => .error ⟨400, "JSON body must be an object"⟩

def requireKeys (required : List String) (value : Json String) : Except WorkerProtocolError Unit :=
  if required.all (fun key => (property key value).isSome) then .ok () else .error ⟨400, "Missing request field"⟩

def isControl (c : Char) : Bool := c.toNat ≤ 0x1F || c.toNat = 0x7F

def requireLeaseToken : Option (Json String) → Except WorkerProtocolError String
  | some (.str value) =>
    if value = "" ∨ (units value).length > 128 ∨ value.toList.any isControl then .error ⟨400, "Invalid leaseToken"⟩
    else .ok value
  | _ => .error ⟨400, "Invalid leaseToken"⟩

/-- An integer from 0 to `0x7fffffff`, spelled as numbers are written. -/
def requireSequence : Option (Json String) → Except WorkerProtocolError Nat
  | some (.num n) =>
    let sequence := Nat.ofDigitChars 10 n.text 0
    if n = .ofNat sequence ∧ sequence ≤ 0x7fffffff then .ok sequence else .error ⟨400, "Invalid log sequence"⟩
  | _ => .error ⟨400, "Invalid log sequence"⟩

def requireText (field : String) (maxLength : Nat) : Option (Json String) → Except WorkerProtocolError String
  | some (.str value) =>
    if value = "" ∨ (units value).length > maxLength ∨ value.toList.contains '\x00' then .error ⟨400, s!"Invalid {field}"⟩
    else .ok value
  | _ => .error ⟨400, s!"Invalid {field}"⟩

def getBuildForWorker (buildId workerId : String) (s : LogState) : Option LogBuild :=
  s.builds.find? fun b => b.id = buildId && b.workerId = some workerId && b.authorized

def requireLease (buildId workerId token : String) : Prog LogState WorkerProtocolError LogBuild := do
  let found ← read (getBuildForWorker buildId workerId)
  match found with
  | none => fail ⟨409, "Worker lease is fenced"⟩
  | some build =>
    if build.leaseToken ≠ some token then fail ⟨409, "Worker lease is fenced"⟩
    else
      let now ← read (·.clock)
      if build.status ≠ .leased ∨ build.leaseExpiresAt.all (· ≤ now) then fail ⟨409, "Worker lease is expired"⟩
      else pure build

def LogRow.at (row : LogRow) (buildId : String) (attempt sequence : Nat) : Bool :=
  row.buildId = buildId && row.attempt = attempt && row.sequence = sequence

/-- `INSERT OR IGNORE`, as long as the worker is active. -/
def insertLog (workerId : String) (row : LogRow) : Sql.Statement LogState := fun s _ =>
  if s.activeWorkers.contains workerId && !s.logs.any (·.at row.buildId row.attempt row.sequence) then
    .ok ({ s with logs := s.logs ++ [row] }, 1)
  else .ok (s, 0)

def databaseFailure (_ : Sql.Raised) : WorkerProtocolError := ⟨500, "Worker protocol storage failure"⟩

/-- Stores a text and reads its row back. -/
def storeLog (workerId : String) (build : LogBuild) (sequence : Nat) (text : String) :
    Prog LogState WorkerProtocolError (Nat × Bool) := do
  let timestamp ← read (·.clock)
  let changes ← Sql.run [insertLog workerId ⟨build.id, build.attempt, sequence, text, timestamp⟩] databaseFailure
  let existing ← read fun s => s.logs.find? (·.at build.id build.attempt sequence)
  match existing with
  | none => fail ⟨500, "Log append was not persisted"⟩
  | some row =>
    if row.text ≠ text then fail ⟨409, "Log sequence already contains different text"⟩
    else pure (sequence, changes.head? ≠ some 1)

/-- The sequence, and whether its text was stored before. -/
def appendJobLog (workerId buildId : String) (input : Json String) : Prog LogState WorkerProtocolError (Nat × Bool) := do
  let _ ← ofExcept (requireExactKeys ["leaseToken", "sequence", "text"] input)
  let _ ← ofExcept (requireKeys ["leaseToken", "sequence", "text"] input)
  let token ← ofExcept (requireLeaseToken (property "leaseToken" input))
  let sequence ← ofExcept (requireSequence (property "sequence" input))
  let text ← ofExcept (requireText "log text" maxLogBytes (property "text" input))
  let build ← requireLease buildId workerId token
  storeLog workerId build sequence text

/-- A request of the worker, from its body on. -/
def receiveLog (workerId buildId : String) (request : LogRequest) : Prog LogState WorkerProtocolError (Nat × Bool) := do
  let input ← ofExcept (parseJsonRequest (encodeJSON request))
  appendJobLog workerId buildId input

/-- `^[A-Za-z0-9][A-Za-z0-9_-]{0,127}$`. -/
def isJobId (id : String) : Bool := Server.Arch.isWord Server.isAlnum (fun c => Server.isAlnum c || c = '_' || c = '-') 127 id.toList

inductive SendError where
  | invalidRequest
  | refused (cause : WorkerProtocolError)
  deriving DecidableEq

/-- `sendLogs`, which stops at the first request that fails. `meanwhile` is what changes before each
request besides. -/
def sendLogs (workerId buildId : String) (meanwhile : Nat → LogState → LogState) :
    List LogRequest → LogState → Except SendError Unit × LogState
  | [], s => (.ok (), s)
  | request :: rest, s =>
    if isJobId buildId = false ∨ request.text.length > maxLogChunk then (.error .invalidRequest, s)
    else
      match (receiveLog workerId buildId request).run (meanwhile request.sequence s) with
      | (.ok _, s') => sendLogs workerId buildId meanwhile rest s'
      | (.error e, s') => (.error (.refused e), s')

/-! ## One request -/

theorem parseJsonRequest_encodeJSON (request : LogRequest) : parseJsonRequest (encodeJSON request) = .ok request.json := by
  have hprint : request.json.print goQuote = '{' :: (request.json.print goQuote).tail := rfl
  have hparse : parse (request.json.print goQuote).length (request.json.print goQuote) = some (request.json, []) := by
    have hdepth : request.json.depth ≤ (request.json.print goQuote).length := by
      rw [hprint]
      simp [LogRequest.json, depth, depthMembers]
    have h := parse_print reads_goQuote request.json hdepth stops_nil
    rw [List.append_nil] at h
    rw [h]
    have hid : (String.ofList ∘ String.toList) = id := funext fun s => String.ofList_toList
    rw [hid, map_id]
  have hmark : (request.json.print goQuote).head? ≠ some '\uFEFF' := by
    rw [hprint]
    simp
  simp only [parseJsonRequest, encodeJSON, decode_encode, ne_eq, not_true_eq_false, if_false, if_neg hmark, hparse]
  rfl

/-- The lease of the worker is live, and the worker active. -/
structure Holding (workerId buildId token : String) (attempt : Nat) (s : LogState) : Prop where
  lease : ∃ build, getBuildForWorker buildId workerId s = some build ∧ build.leaseToken = some token ∧
    build.status = .leased ∧ build.leaseExpiresAt.all (· ≤ s.clock) = false ∧ build.attempt = attempt
  active : s.activeWorkers.contains workerId = true

/-- The rows of an attempt. -/
def attemptLogs (buildId : String) (attempt : Nat) (s : LogState) : List LogRow :=
  s.logs.filter fun row => row.buildId = buildId && row.attempt = attempt

/-- The sequences and texts stored for an attempt. -/
def stored (buildId : String) (attempt : Nat) (s : LogState) : List (Nat × String) :=
  (attemptLogs buildId attempt s).map fun row => (row.sequence, row.text)

/-- A text that the server takes. -/
structure Acceptable (text : String) : Prop where
  nonempty : text ≠ ""
  short : (units text).length ≤ maxLogBytes
  plain : '\x00' ∉ text.toList

theorem requireLease_run {workerId buildId token : String} {attempt : Nat} {s : LogState}
    (h : Holding workerId buildId token attempt s) : ∃ build, (requireLease buildId workerId token).run s = (.ok build, s) ∧
      build.id = buildId ∧ build.attempt = attempt := by
  obtain ⟨build, hfound, htoken, hstatus, hlive, hattempt⟩ := h.lease
  refine ⟨build, ?_, ?_, hattempt⟩
  · unfold requireLease
    rw [run_read_bind, hfound]
    simp only
    rw [if_neg (not_not.mpr htoken), run_read_bind, if_neg (by simp [hstatus, hlive])]
    rfl
  · have := List.find?_some hfound
    simp only [Bool.and_eq_true, decide_eq_true_eq] at this
    exact this.1.1

section
variable {workerId buildId token : String} {attempt n : Nat} {s : LogState}

theorem LogRow.at_iff (row : LogRow) : row.at buildId attempt n = true ↔
    (row.buildId = buildId ∧ row.attempt = attempt) ∧ row.sequence = n := by
  simp [LogRow.at, and_assoc]

theorem mem_stored {text : String} : (n, text) ∈ stored buildId attempt s ↔
    ∃ row ∈ s.logs, row.at buildId attempt n = true ∧ row.text = text := by
  unfold stored attemptLogs
  constructor
  · intro h
    obtain ⟨row, hrow, heq⟩ := List.mem_map.mp h
    obtain ⟨hmem, hkey⟩ := List.mem_filter.mp hrow
    obtain ⟨rfl, rfl⟩ := Prod.mk.inj heq
    exact ⟨row, hmem, row.at_iff.mpr ⟨by simpa using hkey, rfl⟩, rfl⟩
  · rintro ⟨row, hmem, hat, rfl⟩
    obtain ⟨hkey, rfl⟩ := row.at_iff.mp hat
    exact List.mem_map.mpr ⟨row, List.mem_filter.mpr ⟨hmem, by simpa using hkey⟩, rfl⟩

/-- One statement as a step. -/
theorem run_insertLog {row : LogRow} {s' : LogState} {changes : Nat} (h : insertLog workerId row s 0 = .ok (s', changes)) :
    (Sql.run [insertLog workerId row] databaseFailure).run s = (.ok [changes], s') := by
  simp [Sql.run, transact, Prog.run, Sql.batch, Sql.runAll, h, Prog.ofExcept, bind, Except.bind]

/-- A text whose sequence has none is stored. -/
theorem storeLog_new {build : LogBuild} (text : String) (hactive : s.activeWorkers.contains workerId = true)
    (hnew : ∀ e ∈ stored build.id build.attempt s, e.1 ≠ n) :
    ∃ s', (storeLog workerId build n text).run s = (.ok (n, false), s') ∧
      stored build.id build.attempt s' = stored build.id build.attempt s ++ [(n, text)] := by
  have hfree : s.logs.any (·.at build.id build.attempt n) = false := by
    rw [List.any_eq_false]
    intro row hrow hat
    exact hnew (n, row.text) (mem_stored.mpr ⟨row, hrow, hat, rfl⟩) rfl
  refine ⟨{ s with logs := s.logs ++ [⟨build.id, build.attempt, n, text, s.clock⟩] }, ?_, ?_⟩
  · have hinsert : insertLog workerId ⟨build.id, build.attempt, n, text, s.clock⟩ s 0 =
        .ok ({ s with logs := s.logs ++ [⟨build.id, build.attempt, n, text, s.clock⟩] }, 1) := by
      simp only [insertLog, hactive, hfree]
      rfl
    have hfound : (s.logs ++ [(⟨build.id, build.attempt, n, text, s.clock⟩ : LogRow)]).find? (·.at build.id build.attempt n) =
        some ⟨build.id, build.attempt, n, text, s.clock⟩ := by
      rw [List.find?_append, List.find?_eq_none.mpr fun row hrow => by
        simpa using List.any_eq_false.mp hfree row hrow]
      simp [LogRow.at]
    unfold storeLog
    rw [run_read_bind]
    refine (run_bind (Sql.run _ databaseFailure) _ s).trans ?_
    rw [run_insertLog hinsert]
    simp only
    rw [run_read_bind, hfound]
    simp only
    rw [if_neg (not_not.mpr rfl)]
    rfl
  · simp [stored, attemptLogs, List.filter_append]

/-- A text that its sequence has is left. -/
theorem storeLog_again {build : LogBuild} {text : String} (hmem : (n, text) ∈ stored build.id build.attempt s)
    (hall : ∀ e ∈ stored build.id build.attempt s, e.1 = n → e.2 = text) :
    (storeLog workerId build n text).run s = (.ok (n, true), s) := by
  obtain ⟨row, hrow, hat, -⟩ := mem_stored.mp hmem
  have htaken : s.logs.any (·.at build.id build.attempt n) = true := List.any_eq_true.mpr ⟨row, hrow, hat⟩
  have hinsert : insertLog workerId ⟨build.id, build.attempt, n, text, s.clock⟩ s 0 = .ok (s, 0) := by
    simp [insertLog, htaken]
  obtain ⟨found, hfound⟩ : ∃ found, s.logs.find? (·.at build.id build.attempt n) = some found :=
    Option.isSome_iff_exists.mp (List.find?_isSome.mpr ⟨row, hrow, hat⟩)
  have hfat : found.at build.id build.attempt n = true := by simpa using List.find?_some hfound
  have hsame : found.text = text :=
    hall (n, found.text) (mem_stored.mpr ⟨found, List.mem_of_find?_eq_some hfound, hfat, rfl⟩) rfl
  unfold storeLog
  rw [run_read_bind]
  refine (run_bind (Sql.run _ databaseFailure) _ s).trans ?_
  rw [run_insertLog hinsert]
  simp only
  rw [run_read_bind, hfound]
  simp only
  rw [if_neg (not_not.mpr hsame)]
  rfl

/-- What a request that passes its checks does. -/
theorem receiveLog_run (request : LogRequest) {build : LogBuild} (hlease : (requireLease buildId workerId request.leaseToken).run s = (.ok build, s))
    (htoken : requireLeaseToken (some (.str request.leaseToken)) = .ok request.leaseToken) (hn : request.sequence ≤ 0x7fffffff)
    (htext : Acceptable (jsonText request.text)) : (receiveLog workerId buildId request).run s =
      (storeLog workerId build request.sequence (jsonText request.text)).run s := by
  have hnum : Nat.ofDigitChars 10 (Numeral.ofNat request.sequence).text 0 = request.sequence := Nat.ofDigitChars_ten_toDigits
  have hsequence : requireSequence (some (.num (.ofNat request.sequence))) = .ok request.sequence := by
    simp only [requireSequence, hnum, hn, and_self, if_true]
  have hrequired : requireText "log text" maxLogBytes (some (.str (jsonText request.text))) = .ok (jsonText request.text) := by
    have hplain := htext.plain
    simp only [requireText]
    rw [if_neg]
    simp only [not_or, not_lt, List.contains_eq_mem, decide_eq_true_eq]
    exact ⟨htext.nonempty, htext.short, hplain⟩
  have hkeys : requireExactKeys ["leaseToken", "sequence", "text"] request.json = .ok () := rfl
  have hpresent : requireKeys ["leaseToken", "sequence", "text"] request.json = .ok () := rfl
  unfold receiveLog appendJobLog
  rw [parseJsonRequest_encodeJSON, ofExcept_ok_bind, hkeys, ofExcept_ok_bind, hpresent, ofExcept_ok_bind,
    show property "leaseToken" request.json = some (.str request.leaseToken) from rfl, htoken, ofExcept_ok_bind,
    show property "sequence" request.json = some (.num (.ofNat request.sequence)) from rfl, hsequence, ofExcept_ok_bind,
    show property "text" request.json = some (.str (jsonText request.text)) from rfl, hrequired, ofExcept_ok_bind]
  refine (run_bind (requireLease buildId workerId request.leaseToken) _ s).trans ?_
  rw [hlease]

/-- A request is refused by its sequence, too. -/
theorem receiveLog_sequence {request : LogRequest} {answer : Nat × Bool} {s' : LogState}
    (h : (receiveLog workerId buildId request).run s = (.ok answer, s')) : request.sequence ≤ 0x7fffffff := by
  unfold receiveLog appendJobLog at h
  obtain ⟨input, hinput, h⟩ := run_ofExcept_bind_ok.mp h
  rw [parseJsonRequest_encodeJSON] at hinput
  cases hinput
  obtain ⟨_, -, h⟩ := run_ofExcept_bind_ok.mp h
  obtain ⟨_, -, h⟩ := run_ofExcept_bind_ok.mp h
  obtain ⟨_, -, h⟩ := run_ofExcept_bind_ok.mp h
  obtain ⟨_, hsequence, -⟩ := run_ofExcept_bind_ok.mp h
  rw [show property "sequence" request.json = some (.num (.ofNat request.sequence)) from rfl] at hsequence
  have hnum : Nat.ofDigitChars 10 (Numeral.ofNat request.sequence).text 0 = request.sequence := Nat.ofDigitChars_ten_toDigits
  simp only [requireSequence, hnum, true_and] at hsequence
  split at hsequence
  · assumption
  · cases hsequence

/-! ## A whole log -/

/-- Texts with their sequences, from one on. -/
def numbered : Nat → List String → List (Nat × String)
  | _, [] => []
  | n, text :: rest => (n, text) :: numbered (n + 1) rest

theorem mem_numbered {texts : List String} {first : Nat} {e : Nat × String} :
    e ∈ numbered first texts ↔ ∃ i, texts[i]? = some e.2 ∧ e.1 = first + i := by
  induction texts generalizing first with
  | nil => simp [numbered]
  | cons text texts ih =>
    rw [numbered, List.mem_cons, ih]
    constructor
    · rintro (rfl | ⟨i, hi, he⟩)
      · exact ⟨0, rfl, rfl⟩
      · exact ⟨i + 1, by rwa [List.getElem?_cons_succ], by omega⟩
    · rintro ⟨i, hi, he⟩
      cases i with
      | zero =>
        rw [List.getElem?_cons_zero, Option.some.injEq] at hi
        exact .inl (Prod.ext he hi.symm)
      | succ i => exact .inr ⟨i, by rwa [List.getElem?_cons_succ] at hi, by omega⟩

theorem numbered_append (texts : List String) (text : String) (first : Nat) :
    numbered first (texts ++ [text]) = numbered first texts ++ [(first + texts.length, text)] := by
  induction texts generalizing first with
  | nil => rfl
  | cons t texts ih =>
    rw [List.cons_append, numbered, ih, numbered, List.cons_append, List.length_cons, Nat.add_assoc, Nat.add_comm 1]

end

/-- What happens between the requests: others' rows, the clock and the lease, which the worker keeps. -/
structure Steady (workerId buildId token : String) (attempt : Nat) (meanwhile : Nat → LogState → LogState) : Prop where
  holds : ∀ n s, Holding workerId buildId token attempt (meanwhile n s)
  rows : ∀ n s, attemptLogs buildId attempt (meanwhile n s) = attemptLogs buildId attempt s

/-- The texts of an attempt in the order of their sequences. -/
def logText (buildId : String) (attempt : Nat) (s : LogState) : List Char :=
  ((stored buildId attempt s).mergeSort fun a b => a.1 ≤ b.1).flatMap fun e => e.2.toList

section
variable {workerId buildId token : String} {attempt : Nat} {meanwhile : Nat → LogState → LogState}

theorem Steady.stored (h : Steady workerId buildId token attempt meanwhile) (n : Nat) (s : LogState) :
    stored buildId attempt (meanwhile n s) = stored buildId attempt s := by
  rw [Logs.stored, h.rows, Logs.stored]

/-- One request of a log: the next chunk is stored, one that is stored is left. -/
theorem receiveLog_stored (chunk : Bytes) (htoken : requireLeaseToken (some (.str token)) = .ok token) {texts : List String}
    {n : Nat} {s : LogState} (hholds : Holding workerId buildId token attempt s) (hn : n ≤ 0x7fffffff)
    (hchunk : Acceptable (jsonText chunk)) (hs : stored buildId attempt s = numbered 0 texts)
    (hnext : texts.length = n ∨ texts[n]? = some (jsonText chunk)) :
    ∃ answer s', (receiveLog workerId buildId ⟨token, n, chunk⟩).run s = (.ok answer, s') ∧
      stored buildId attempt s' = numbered 0 (if texts.length = n then texts ++ [jsonText chunk] else texts) := by
  obtain ⟨build, hlease, rfl, rfl⟩ := requireLease_run hholds
  have hrun := receiveLog_run ⟨token, n, chunk⟩ hlease htoken hn hchunk
  by_cases hlen : texts.length = n
  · have hnew : ∀ e ∈ stored build.id build.attempt s, e.1 ≠ n := by
      intro e he
      obtain ⟨i, hi, hei⟩ := mem_numbered.mp (hs ▸ he)
      have := (List.getElem?_eq_some_iff.mp hi).1
      omega
    obtain ⟨s', hstore, hstored⟩ := storeLog_new (jsonText chunk) hholds.active hnew
    refine ⟨_, s', hrun.trans hstore, ?_⟩
    rw [hstored, hs, if_pos hlen, numbered_append, hlen, Nat.zero_add]
  · have hhas : texts[n]? = some (jsonText chunk) := hnext.resolve_left hlen
    have hmem : (n, jsonText chunk) ∈ stored build.id build.attempt s :=
      hs ▸ mem_numbered.mpr ⟨n, hhas, (Nat.zero_add n).symm⟩
    have hall : ∀ e ∈ stored build.id build.attempt s, e.1 = n → e.2 = jsonText chunk := by
      intro e he hen
      obtain ⟨i, hi, hei⟩ := mem_numbered.mp (hs ▸ he)
      obtain rfl : i = n := by omega
      exact Option.some.inj (hi.symm.trans hhas)
    exact ⟨_, s, hrun.trans (storeLog_again hmem hall), by rw [if_neg hlen, hs]⟩

/-- Requests that go on from any chunk up to the last stored one end with every chunk stored. -/
theorem sendLogs_stored (hid : isJobId buildId = true) (htoken : requireLeaseToken (some (.str token)) = .ok token)
    (hsteady : Steady workerId buildId token attempt meanwhile) (sent rest : List Bytes)
    (hcount : sent.length + rest.length ≤ 2 ^ 31)
    (hchunks : ∀ c ∈ rest, c.length ≤ maxLogChunk ∧ Acceptable (jsonText c)) {m : Nat} (hsent : sent.length ≤ m)
    (hm : m ≤ sent.length + rest.length) {s : LogState}
    (hs : stored buildId attempt s = numbered 0 (((sent ++ rest).take m).map jsonText)) :
    ∃ s', sendLogs workerId buildId meanwhile (logRequests token sent.length rest) s = (.ok (), s') ∧
      stored buildId attempt s' = numbered 0 ((sent ++ rest).map jsonText) := by
  induction rest generalizing sent m s with
  | nil =>
    rw [List.append_nil, List.take_of_length_le (by simpa using hsent)] at hs
    exact ⟨s, rfl, by rw [List.append_nil, hs]⟩
  | cons c rest ih =>
    obtain ⟨hlen, htext⟩ := hchunks c List.mem_cons_self
    rw [List.length_cons] at hcount hm
    have hnth : (sent ++ c :: rest)[sent.length]? = some c := by simp
    have htexts : (((sent ++ c :: rest).take m).map jsonText).length = m := by
      rw [List.length_map, List.length_take, List.length_append, List.length_cons]
      omega
    obtain ⟨answer, s', hrun, hstored⟩ := receiveLog_stored (n := sent.length) c htoken (hsteady.holds sent.length s)
      (by omega) htext ((hsteady.stored _ _).trans hs) (by
        rw [htexts]
        rcases Nat.lt_or_ge sent.length m with hlt | hge
        · right
          rw [List.getElem?_map, List.getElem?_take_of_lt hlt, hnth]
          rfl
        · exact .inl (by omega))
    rw [htexts] at hstored
    have hgo : sendLogs workerId buildId meanwhile (logRequests token sent.length (c :: rest)) s =
        sendLogs workerId buildId meanwhile (logRequests token (sent.length + 1) rest) s' := by
      rw [logRequests, sendLogs, if_neg (by rw [not_or]; exact ⟨by simp [hid], by simpa using hlen⟩), hrun]
    rw [hgo]
    have hsplit : sent ++ c :: rest = (sent ++ [c]) ++ rest := by simp
    have hsize : (sent ++ [c]).length = sent.length + 1 := by simp
    rw [hsplit, ← hsize]
    refine ih (sent ++ [c]) (m := max m (sent.length + 1)) (by omega)
      (fun d hd => hchunks d (List.mem_cons_of_mem _ hd)) (by omega) (by omega) ?_
    rw [hstored, ← hsplit]
    split
    · rename_i heq
      have hmax : max m (sent.length + 1) = m + 1 := by omega
      rw [hmax, List.take_add_one, List.map_append, heq, hnth]
      rfl
    · have hmax : max m (sent.length + 1) = m := by omega
      rw [hmax]

end

/-- A chunk of a log without NUL is taken, whole characters or not. -/
theorem acceptable_chunk {cs : List Char} (hplain : '\x00' ∉ cs) {c : Bytes} (hc : c ∈ chunks maxLogChunk (encode cs)) :
    c.length ≤ maxLogChunk ∧ Acceptable (jsonText c) := by
  obtain ⟨hne, hlen, hmem⟩ := mem_chunks (by decide) hc
  refine ⟨hlen, ⟨fun hempty => ?_, ?_, fun hzero => ?_⟩⟩
  · have hnil : decode c = [] := by simpa [jsonText] using hempty
    have hle := (length_le_encode_decode c).1
    rw [hnil] at hle
    exact hne (List.length_eq_zero_iff.mp (Nat.le_zero.mp hle))
  · have hunits := length_units_le (decode c)
    have hdecode := length_decode_le c
    simp only [jsonText, maxLogBytes, maxLogChunk] at *
    omega
  · rw [jsonText, String.toList_ofList] at hzero
    exact hplain (zero_mem_encode (hmem 0 (zero_mem_of_decode hzero)))

theorem take_logRequests (token : String) (chunks : List Bytes) (n k : Nat) :
    (logRequests token n chunks).take k = logRequests token n (chunks.take k) := by
  induction chunks generalizing n k with
  | nil => rw [logRequests, List.take_nil, List.take_nil, logRequests]
  | cons c chunks ih =>
    cases k with
    | zero => rfl
    | succ k => rw [logRequests, List.take_succ_cons, List.take_succ_cons, logRequests, ih]

theorem exists_logRequest (token : String) (chunks : List Bytes) (n : Nat) {i : Nat} (hi : i < chunks.length) :
    ∃ request ∈ logRequests token n chunks, request.sequence = n + i := by
  induction chunks generalizing n i with
  | nil => exact absurd hi (Nat.not_lt_zero _)
  | cons c chunks ih =>
    cases i with
    | zero => exact ⟨_, List.mem_cons_self, rfl⟩
    | succ i =>
      obtain ⟨request, hmem, hseq⟩ := ih (n + 1) (Nat.lt_of_succ_lt_succ hi)
      exact ⟨request, List.mem_cons_of_mem _ hmem, by omega⟩

theorem sendLogs_sequence {workerId buildId : String} {meanwhile : Nat → LogState → LogState} {requests : List LogRequest}
    {s : LogState} (h : (sendLogs workerId buildId meanwhile requests s).1 = .ok ()) :
    ∀ request ∈ requests, request.sequence ≤ 0x7fffffff := by
  induction requests generalizing s with
  | nil => exact fun _ hr => absurd hr List.not_mem_nil
  | cons request requests ih =>
    rw [sendLogs] at h
    split at h
    · cases h
    · split at h
      · rename_i answer s' hrun
        intro r hr
        rcases List.mem_cons.mp hr with rfl | hr
        · exact receiveLog_sequence hrun
        · exact ih h r hr
      · cases h

/-- What a log is read as, of the chunks it was cut into. -/
theorem logText_numbered {buildId : String} {attempt : Nat} {s : LogState} {chunks : List Bytes}
    (h : stored buildId attempt s = numbered 0 (chunks.map jsonText)) : logText buildId attempt s = chunks.flatMap decode := by
  have hsorted (first : Nat) (texts : List String) : (numbered first texts).Pairwise fun a b => a.1 ≤ b.1 := by
    induction texts generalizing first with
    | nil => exact .nil
    | cons t texts ih =>
      refine List.pairwise_cons.mpr ⟨fun e he => ?_, ih (first + 1)⟩
      obtain ⟨i, -, hi⟩ := mem_numbered.mp he
      show first ≤ e.1
      omega
  have htexts (first : Nat) (chunks : List Bytes) :
      (numbered first (chunks.map jsonText)).flatMap (fun e => e.2.toList) = chunks.flatMap decode := by
    induction chunks generalizing first with
    | nil => rfl
    | cons c chunks ih =>
      rw [List.map_cons, numbered, List.flatMap_cons, List.flatMap_cons, ih, jsonText, String.toList_ofList]
  rw [logText, h, List.mergeSort_of_pairwise ((hsorted 0 _).imp fun hab => decide_eq_true hab), htexts]

/-! ## Sending and storing -/

/-- The log is taken and stored, and so it is when it is sent again after some of its chunks. -/
structure Kept (workerId buildId token : String) (attempt : Nat) (meanwhile : Nat → LogState → LogState) (log : List Char)
    (s : LogState) : Prop where
  accepted : (sendLogs workerId buildId meanwhile (logRequests token 0 (chunks maxLogChunk (encode log))) s).1 = .ok ()
  text : logText buildId attempt
    (sendLogs workerId buildId meanwhile (logRequests token 0 (chunks maxLogChunk (encode log))) s).2 = log
  again : ∀ k later, Steady workerId buildId token attempt later →
    let requests := logRequests token 0 (chunks maxLogChunk (encode log))
    let partly := (sendLogs workerId buildId meanwhile (requests.take k) s).2
    (sendLogs workerId buildId later requests partly).1 = .ok () ∧
      stored buildId attempt (sendLogs workerId buildId later requests partly).2 =
        stored buildId attempt (sendLogs workerId buildId meanwhile requests s).2

section
variable {workerId buildId token : String} {attempt : Nat} {meanwhile : Nat → LogState → LogState} {log : List Char} {s : LogState}

theorem Kept.count (h : Kept workerId buildId token attempt meanwhile log s) :
    (chunks maxLogChunk (encode log)).length ≤ 2 ^ 31 := by
  by_contra hlarge
  obtain ⟨request, hmem, hsequence⟩ := exists_logRequest token (chunks maxLogChunk (encode log)) 0 (not_le.mp hlarge)
  have := sendLogs_sequence h.accepted request hmem
  omega

section
variable (hid : isJobId buildId = true) (htoken : requireLeaseToken (some (.str token)) = .ok token)
  (hsteady : Steady workerId buildId token attempt meanwhile) (hplain : '\x00' ∉ log) (hfresh : stored buildId attempt s = [])

include hid htoken hsteady hplain hfresh

/-- A log that has not too many chunks is taken, and its chunks are stored. -/
theorem sendLogs_fresh (part : List Bytes) (hpart : ∀ c ∈ part, c ∈ chunks maxLogChunk (encode log))
    (hcount : part.length ≤ 2 ^ 31) :
    ∃ s', sendLogs workerId buildId meanwhile (logRequests token 0 part) s = (.ok (), s') ∧
      stored buildId attempt s' = numbered 0 (part.map jsonText) :=
  sendLogs_stored hid htoken hsteady [] part (m := 0) (by simpa using hcount)
    (fun c hc => acceptable_chunk hplain (hpart c hc)) (Nat.le_refl 0) (Nat.zero_le _) hfresh

theorem Kept.endsBetween (h : Kept workerId buildId token attempt meanwhile log s) : EndsBetween maxLogChunk log := by
  obtain ⟨s', hsend, hstored⟩ := sendLogs_fresh hid htoken hsteady hplain hfresh _ (fun c hc => hc) h.count
  have htext := h.text
  rw [hsend] at htext
  exact (chunks_decode_iff (by decide) log).mp ((logText_numbered hstored).symm.trans htext)

theorem kept_of_endsBetween (hends : EndsBetween maxLogChunk log) (hcount : (chunks maxLogChunk (encode log)).length ≤ 2 ^ 31) :
    Kept workerId buildId token attempt meanwhile log s := by
  obtain ⟨s', hsend, hstored⟩ := sendLogs_fresh hid htoken hsteady hplain hfresh _ (fun c hc => hc) hcount
  refine ⟨by rw [hsend], ?_, fun k later hlater => ?_⟩
  · rw [hsend]
    exact (logText_numbered hstored).trans ((chunks_decode_iff (by decide) log).mpr hends)
  · obtain ⟨s₁, hsend₁, hstored₁⟩ := sendLogs_fresh hid htoken hsteady hplain hfresh
      ((chunks maxLogChunk (encode log)).take k) (fun c hc => List.mem_of_mem_take hc)
      (Nat.le_trans (List.length_take_le' _ _) hcount)
    simp only [take_logRequests, hsend₁, hsend, hstored]
    obtain ⟨s₂, hsend₂, hstored₂⟩ := sendLogs_stored hid htoken hlater [] (chunks maxLogChunk (encode log))
      (m := min k (chunks maxLogChunk (encode log)).length) (by simpa using hcount)
      (fun c hc => acceptable_chunk hplain hc) (Nat.zero_le _) (by simp) (s := s₁)
      (by rw [hstored₁, List.nil_append, ← List.take_eq_take_min])
    rw [List.length_nil, List.nil_append] at *
    rw [hsend₂]
    exact ⟨rfl, hstored₂⟩

/-- A log is kept just where every chunk ends between two characters and there are no more chunks
than sequences. -/
theorem kept_iff : Kept workerId buildId token attempt meanwhile log s ↔
    EndsBetween maxLogChunk log ∧ (encode log).length ≤ 2 ^ 31 * maxLogChunk := by
  rw [← length_chunks_le_iff (by decide)]
  exact ⟨fun h => ⟨h.endsBetween hid htoken hsteady hplain hfresh, h.count⟩,
    fun h => kept_of_endsBetween hid htoken hsteady hplain hfresh h.1 h.2⟩

end

end

/-! ## Two logs -/

def sampleBuild : LogBuild := ⟨"b", some "w", some "t", some 2000, 1, .leased, true⟩

def sampleState : LogState := ⟨1000, [sampleBuild], ["w"], []⟩

/-- The clock and the lease stay as they are. -/
def sampleMeanwhile (_ : Nat) (s : LogState) : LogState :=
  { s with clock := 1000, builds := [sampleBuild], activeWorkers := ["w"] }

theorem sampleMeanwhile_steady : Steady "w" "b" "t" 1 sampleMeanwhile :=
  ⟨fun _ _ => ⟨⟨sampleBuild, rfl, rfl, rfl, rfl, rfl⟩, rfl⟩, fun _ _ => rfl⟩

/-- A letter of two bytes, the first of them the last of a chunk. -/
def straddling : List Char := List.replicate 16383 'a' ++ ['é']

theorem straddling_lost : ¬Kept "w" "b" "t" 1 sampleMeanwhile straddling sampleState := by
  intro h
  have hplain : '\x00' ∉ straddling := by
    rintro hzero
    rcases List.mem_append.mp hzero with hzero | hzero
    · exact absurd (List.eq_of_mem_replicate hzero) (by decide)
    · exact absurd (List.mem_singleton.mp hzero) (by decide)
  have hends := h.endsBetween (by decide) rfl sampleMeanwhile_steady hplain rfl
  have hascii (n : Nat) : (encode (List.replicate n 'a')).length = n := by
    induction n with
    | zero => rfl
    | succ n ih =>
      rw [List.replicate_succ, encode, List.flatMap_cons, List.length_append, ← encode, ih, Nat.add_comm]
      rfl
  have hlen : (encode straddling).length = 16385 := by
    rw [straddling, encode_append, List.length_append, hascii]
    rfl
  obtain ⟨pre, hpre, hsize⟩ := hends 1 (by rw [hlen]; decide)
  -- what ends within the letters is shorter, and what does not is the whole
  have hsize' : (encode pre).length = 16384 := hsize
  rw [straddling, List.prefix_concat_iff] at hpre
  rcases hpre with rfl | hpre
  · rw [← straddling] at hsize'
    omega
  · obtain ⟨n, hn, rfl⟩ : ∃ n ≤ 16383, pre = List.replicate n 'a' := by
      obtain ⟨hcount, heq⟩ := List.prefix_replicate_iff.mp hpre
      exact ⟨_, hcount, heq⟩
    rw [hascii] at hsize'
    omega

theorem short_kept : Kept "w" "b" "t" 1 sampleMeanwhile ['o', 'k'] sampleState := by
  refine (kept_iff (by decide) rfl sampleMeanwhile_steady (by decide) rfl).mpr ⟨fun j hj => ?_, by decide⟩
  have hlen : (encode ['o', 'k']).length = 2 := by decide
  rw [hlen] at hj
  obtain rfl : j = 0 := by
    simp only [maxLogChunk] at hj
    omega
  exact ⟨[], List.nil_prefix, by simp [encode]⟩

end Omapkg.Wire.Logs
