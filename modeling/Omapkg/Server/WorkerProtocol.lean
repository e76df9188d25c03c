import Omapkg.Lib.Pool
import Omapkg.Lib.Sql
import Omapkg.Server.Validate
/-!
# Signed worker requests

`authenticateWorker` of `src/src/lib/server/worker-protocol.ts`, run by any
number of requests at once. A nonce is kept for twice the clock skew, counted
from when it is stored: a request that stores it late can find the nonce of its
first acceptance purged.
-/

namespace Omapkg.Server

open Utf Prog

structure WorkerProtocolError where
  status : Nat
  message : String
  deriving DecidableEq

/-! ## Requests -/

inductive WorkerStatus where
  | active | revoked
  deriving DecidableEq, Repr

/-- What a worker's row is asked for. -/
structure Worker where
  id : String
  publicKey : String
  status : WorkerStatus
  deriving DecidableEq

/-- A request with its `X-OPR-*` headers. -/
structure WorkerRequest where
  method : String
  pathAndQuery : String
  body : Bytes
  worker : Option String
  timestamp : Option String
  nonce : Option String
  signature : Option String
  deriving DecidableEq

structure AuthenticatedWorker where
  worker : Worker
  timestamp : Nat
  nonce : String
  deriving DecidableEq

def clockSkewSeconds : Int := 60

/-- `/^[0-9a-f]{32}$/`. -/
def isNonce (nonce : String) : Bool := nonce.toList.length = 32 && nonce.toList.all Hash.isLowerHex

/-! ## Base64 -/

def base64Value (c : Char) : Option Nat :=
  if 'A' ≤ c ∧ c ≤ 'Z' then some (c.toNat - 65)
  else if 'a' ≤ c ∧ c ≤ 'z' then some (c.toNat - 97 + 26)
  else if '0' ≤ c ∧ c ≤ '9' then some (c.toNat - 48 + 52)
  else if c = '+' then some 62
  else if c = '/' then some 63
  else none

/-- Four values make three bytes; the bits left over of two or three are dropped. -/
def base64Bytes : List Nat → Bytes
  | a :: b :: c :: d :: rest =>
    UInt8.ofNat (a * 4 + b / 16) :: UInt8.ofNat (b % 16 * 16 + c / 4) :: UInt8.ofNat (c % 4 * 64 + d) ::
      base64Bytes rest
  | [a, b, c] => [UInt8.ofNat (a * 4 + b / 16), UInt8.ofNat (b % 16 * 16 + c / 4)]
  | [a, b] => [UInt8.ofNat (a * 4 + b / 16)]
  | _ => []

/-- `atob`, which drops up to two `=` from a text of whole groups. -/
def atob (cs : List Char) : Option Bytes :=
  let stripped :=
    if cs.length % 4 = 0 then
      match cs.reverse with
      | '=' :: '=' :: rest => rest.reverse
      | '=' :: rest => rest.reverse
      | _ => cs
    else cs
  if stripped.length % 4 = 1 then none else (stripped.mapM base64Value).map base64Bytes

/-- `/^[A-Za-z0-9+/]*={0,2}$/`. -/
def isBase64 (cs : List Char) : Bool :=
  let rest := cs.dropWhile fun c => (base64Value c).isSome
  rest.length ≤ 2 && rest.all (· = '=')

def decodeBase64 (value : String) (field : String) : Except WorkerProtocolError Bytes :=
  if value.toList.length = 0 ∨ value.toList.length % 4 = 1 ∨ isBase64 value.toList = false then
    .error ⟨400, s!"Invalid {field}"⟩
  else
    match atob value.toList with
    | none => .error ⟨400, s!"Invalid {field}"⟩
    | some bytes => .ok bytes

/-! ## Checks -/

/-- The headers, each present and not empty, with a timestamp of digits and a nonce. -/
def authHeaders (request : WorkerRequest) : Except WorkerProtocolError (String × String × String × String) :=
  match request.worker, request.timestamp, request.nonce, request.signature with
  | some worker, some timestamp, some nonce, some signature =>
    if worker = "" ∨ timestamp = "" ∨ nonce = "" ∨ signature = "" ∨ timestamp.toList.all Char.isDigit = false ∨
        isNonce nonce = false then
      .error ⟨401, "Invalid worker authentication"⟩
    else .ok (worker, timestamp, nonce, signature)
  | _, _, _, _ => .error ⟨401, "Invalid worker authentication"⟩

/-- `Number` of a text of digits; what is not a safe integer is far from any clock. -/
def timestampValue (header : String) : Nat := Nat.ofDigitChars 10 header.toList 0

def checkTimestamp (header : String) (now : Int) : Except WorkerProtocolError Nat :=
  if timestampValue header > maxSafeInteger ∨ (now - timestampValue header).natAbs > clockSkewSeconds then
    .error ⟨401, "Invalid worker timestamp"⟩
  else .ok (timestampValue header)

def checkWorker : Option Worker → Except WorkerProtocolError Worker
  | none => .error ⟨401, "Invalid worker authentication"⟩
  | some worker => if worker.status = .active then .ok worker else .error ⟨403, "Worker is revoked"⟩

section
variable (sha256 : Bytes → Hash.Digest) (ed25519 : Bytes → String → Bytes → Bool)

/-- `verify` of Web Crypto, for a key and a signature of the right lengths. -/
def verifyEd25519 (publicKey : Bytes) (message : String) (signature : Bytes) : Bool :=
  if publicKey.length ≠ 32 ∨ signature.length ≠ 64 then false else ed25519 publicKey message signature

/-- The text whose UTF-8 bytes are signed. -/
def signatureMessage (method pathAndQuery timestamp nonce bodyHash : String) : String :=
  method.toUpper ++ "\n" ++ pathAndQuery ++ "\n" ++ timestamp ++ "\n" ++ nonce ++ "\n" ++ bodyHash

def checkSignature (request : WorkerRequest) (worker : Worker) (timestamp nonce signature : String) :
    Except WorkerProtocolError Unit := do
  let publicKey ← decodeBase64 worker.publicKey "worker public key"
  let signature ← decodeBase64 signature "worker signature"
  let message := signatureMessage request.method request.pathAndQuery timestamp nonce (sha256 request.body).hex
  if verifyEd25519 ed25519 publicKey message signature then .ok ()
  else .error ⟨401, "Invalid worker signature"⟩

end

/-! ## Storage -/

/-- A row of `worker_nonces`. -/
structure WorkerNonce where
  workerId : String
  nonce : String
  createdAt : Int
  deriving DecidableEq

/-- What a worker signs. -/
structure SignedRequest where
  worker : String
  nonce : String
  timestamp : Nat
  body : Bytes
  deriving DecidableEq

/-- The tables `authenticateWorker` uses, the clock, and the requests whose
nonce was stored, the last first. -/
structure AuthState where
  clock : Int
  workers : List Worker
  nonces : List WorkerNonce
  accepted : List SignedRequest

/-- The batch that drops old nonces and stores a new one. -/
def nonceBatch (workerId nonce : String) (purgeNow createdAt : Int) : List (Sql.Statement AuthState) :=
  [ fun s _ =>
      let (nonces, n) := Sql.delete (fun row => row.createdAt < purgeNow - clockSkewSeconds * 2) s.nonces
      .ok ({ s with nonces }, n),
    fun s _ =>
      if s.workers.any (·.id = workerId) then do
        let (nonces, n) ← Sql.insert (fun row => row.workerId = workerId && row.nonce = nonce)
          "UNIQUE constraint failed: worker_nonces.worker_id, worker_nonces.nonce" ⟨workerId, nonce, createdAt⟩ s.nonces
        .ok ({ s with nonces }, n)
      else .error ⟨"FOREIGN KEY constraint failed"⟩ ]

/-- Both of the batch's errors are constraints, which the caller takes for a replay. -/
def storeNonce (signed : SignedRequest) (purgeNow createdAt : Int) (s : AuthState) :
    Except WorkerProtocolError Unit × AuthState :=
  match Sql.batch (nonceBatch signed.worker signed.nonce purgeNow createdAt) s with
  | (.ok _, s') => (.ok (), { s' with accepted := signed :: s'.accepted })
  | (.error _, s') => (.error ⟨409, "Worker request replayed"⟩, s')

def authenticateWorker (sha256 : Bytes → Hash.Digest) (ed25519 : Bytes → String → Bytes → Bool)
    (request : WorkerRequest) : Prog AuthState WorkerProtocolError AuthenticatedWorker := do
  let (workerId, timestampHeader, nonce, signatureHeader) ← ofExcept (authHeaders request)
  let now ← read (·.clock)
  let timestamp ← ofExcept (checkTimestamp timestampHeader now)
  let found ← read fun s => s.workers.find? (·.id = workerId)
  let worker ← ofExcept (checkWorker found)
  let _ ← ofExcept (checkSignature sha256 ed25519 request worker timestampHeader nonce signatureHeader)
  let purgeNow ← read (·.clock)
  let createdAt ← read (·.clock)
  let _ ← transact (storeNonce ⟨worker.id, nonce, timestamp, request.body⟩ purgeNow createdAt)
  pure ⟨worker, timestamp, nonce⟩

/-! ## What a request keeps -/

/-- An accepted request's nonce is stored, unless its timestamp is out of reach
of the clock. -/
def Covered (s : AuthState) (signed : SignedRequest) : Prop :=
  s.clock > signed.timestamp + clockSkewSeconds ∨
    ∃ row ∈ s.nonces, row.workerId = signed.worker ∧ row.nonce = signed.nonce ∧
      row.createdAt ≥ signed.timestamp - clockSkewSeconds

def AcceptedOnce (s : AuthState) : Prop := s.accepted.Nodup ∧ ∀ signed ∈ s.accepted, Covered s signed

/-- The clock does not go back and what was accepted stays so. -/
def Later (s s' : AuthState) : Prop := s.clock ≤ s'.clock ∧ s.accepted <:+ s'.accepted

instance : Std.Refl Later := ⟨fun s => ⟨le_refl s.clock, List.suffix_refl s.accepted⟩⟩

instance : IsTrans AuthState Later :=
  ⟨fun _ _ _ h h' => ⟨h.1.trans h'.1, h.2.trans h'.2⟩⟩

/-- A request accepted by this step is accepted while the clock has not passed
its timestamp by more than the skew. -/
def Timely (s s' : AuthState) : Prop :=
  s'.accepted = s.accepted ∨
    ∃ signed, s'.accepted = signed :: s.accepted ∧ s.clock ≤ signed.timestamp + clockSkewSeconds

theorem storeNonce_cases (signed : SignedRequest) (purgeNow createdAt : Int) (s : AuthState) :
    (∃ e, storeNonce signed purgeNow createdAt s = (.error e, s)) ∨
      ∃ nonces, nonces = s.nonces.filter (fun row => !decide (row.createdAt < purgeNow - clockSkewSeconds * 2)) ∧
        (∀ row ∈ nonces, ¬(row.workerId = signed.worker ∧ row.nonce = signed.nonce)) ∧
        storeNonce signed purgeNow createdAt s =
          (.ok (), { s with nonces := nonces ++ [⟨signed.worker, signed.nonce, createdAt⟩],
                            accepted := signed :: s.accepted }) := by
  unfold storeNonce Sql.batch nonceBatch
  simp only [Sql.runAll, Sql.delete, bind, Except.bind]
  by_cases hworker : s.workers.any (·.id = signed.worker)
  · simp only [hworker, if_true]
    rcases hinsert : Sql.insert _ _ _ _ with e | ⟨nonces, n⟩
    · exact .inl ⟨_, rfl⟩
    · obtain ⟨hfree, rfl, rfl⟩ := Sql.insert_ok.mp hinsert
      refine .inr ⟨_, rfl, fun row hrow h => ?_, rfl⟩
      have hclash := hfree row hrow
      simp [h] at hclash
  · simp only [hworker, if_false, Bool.false_eq_true]
    exact .inl ⟨_, rfl⟩

/-- Purging what is older than twice the skew keeps what is still in reach. -/
theorem Covered.purge {s : AuthState} {signed : SignedRequest} (h : Covered s signed) {purgeNow : Int}
    (hnow : purgeNow ≤ s.clock) :
    s.clock > signed.timestamp + clockSkewSeconds ∨
      ∃ row ∈ s.nonces.filter (fun row => !decide (row.createdAt < purgeNow - clockSkewSeconds * 2)),
        row.workerId = signed.worker ∧ row.nonce = signed.nonce ∧
          row.createdAt ≥ signed.timestamp - clockSkewSeconds := by
  rcases h with hpast | ⟨row, hrow, hid, hnonce, hcreated⟩
  · exact .inl hpast
  · by_cases hkept : row.createdAt < purgeNow - clockSkewSeconds * 2
    · left
      unfold clockSkewSeconds at *
      omega
    · exact .inr ⟨row, List.mem_filter.mpr ⟨hrow, by simpa using hkept⟩, hid, hnonce, hcreated⟩

/-- A timely batch accepts nothing twice. -/
theorem storeNonce_keeps {signed : SignedRequest} {purgeNow createdAt : Int} {s : AuthState} (h : AcceptedOnce s)
    (hpurge : purgeNow ≤ s.clock) (hcreated : createdAt ≥ signed.timestamp - clockSkewSeconds)
    (htimely : Timely s (storeNonce signed purgeNow createdAt s).2) :
    AcceptedOnce (storeNonce signed purgeNow createdAt s).2 ∧ Later s (storeNonce signed purgeNow createdAt s).2 := by
  rcases storeNonce_cases signed purgeNow createdAt s with ⟨e, he⟩ | ⟨nonces, rfl, hfree, he⟩
  · rw [he]
    exact ⟨h, refl_of Later s⟩
  · rw [he] at htimely ⊢
    have hclock : s.clock ≤ signed.timestamp + clockSkewSeconds := by
      rcases htimely with hsame | ⟨signed', hcons, hclock⟩
      · exact absurd hsame (List.cons_ne_self _ _)
      · obtain ⟨rfl, -⟩ := List.cons.inj hcons
        exact hclock
    have hnew : signed ∉ s.accepted := by
      intro hmem
      rcases (h.2 signed hmem).purge hpurge with hpast | ⟨row, hrow, hid, hnonce, -⟩
      · omega
      · exact hfree row hrow ⟨hid, hnonce⟩
    refine ⟨⟨List.nodup_cons.mpr ⟨hnew, h.1⟩, fun signed' hmem => ?_⟩, le_refl _, List.suffix_cons _ _⟩
    rcases List.mem_cons.mp hmem with rfl | hmem
    · exact .inr ⟨_, List.mem_append_right _ (List.mem_singleton.mpr rfl), rfl, rfl, hcreated⟩
    · rcases (h.2 signed' hmem).purge hpurge with hpast | ⟨row, hrow, hrest⟩
      · exact .inl hpast
      · exact .inr ⟨row, List.mem_append_left _ hrow, hrest⟩

section
variable (sha256 : Bytes → Hash.Digest) (ed25519 : Bytes → String → Bytes → Bool)

/-- What is answered was accepted. -/
def Answered (auth : AuthenticatedWorker) (s : AuthState) : Prop :=
  ∃ signed ∈ s.accepted,
    signed.worker = auth.worker.id ∧ signed.nonce = auth.nonce ∧ signed.timestamp = auth.timestamp

theorem authenticateWorker_keeps (request : WorkerRequest) (s : AuthState) :
    Keeps AcceptedOnce Timely Later Later Answered (authenticateWorker sha256 ed25519 request) s := by
  unfold authenticateWorker
  refine keeps_ofExcept_bind fun ⟨workerId, timestampHeader, nonce, signatureHeader⟩ _ => ?_
  refine keeps_read_bind fun s₁ _ _ => keeps_ofExcept_bind fun timestamp htimestamp => ?_
  refine keeps_read_bind fun s₂ _ hs₂ => keeps_ofExcept_bind fun worker _ => keeps_ofExcept_bind fun _ _ => ?_
  refine keeps_read_bind fun s₃ _ hs₃ => keeps_read_bind fun s₄ _ hs₄ => ?_
  refine keeps_transact_bind fun s₅ hi hs₅ htimely => ?_
  -- the clock readings are in order, and the first was within the skew
  have hskew : s₁.clock ≥ timestamp - clockSkewSeconds := by
    unfold checkTimestamp at htimestamp
    split at htimestamp
    · cases htimestamp
    · next hnear =>
      cases htimestamp
      omega
  have h₁ := hs₂.1
  have h₂ := hs₃.1
  have h₃ := hs₄.1
  have h₄ := hs₅.1
  have hcreated : s₄.clock ≥ timestamp - clockSkewSeconds := by omega
  obtain ⟨hi', hlater⟩ := storeNonce_keeps hi (by omega) hcreated htimely
  refine ⟨hi', hlater, fun _ hok s₆ _ hs₆ => ?_⟩
  rcases storeNonce_cases ⟨worker.id, nonce, timestamp, request.body⟩ s₃.clock s₄.clock s₅ with
    ⟨e, he⟩ | ⟨nonces, -, -, he⟩
  · rw [he] at hok
    cases hok
  · rw [he] at hs₆
    exact ⟨_, hs₆.2.subset List.mem_cons_self, rfl, rfl, rfl⟩

/-! ## Runs of requests -/

/-- A request that is being authenticated. -/
def Authenticating (_ : Nat) (p : Prog AuthState WorkerProtocolError AuthenticatedWorker) : Prop :=
  ∃ request, p = authenticateWorker sha256 ed25519 request

/-- Between the steps of requests the clock goes on and workers change. -/
def AuthMoves (s s' : AuthState) : Prop :=
  s.clock ≤ s'.clock ∧ s'.nonces = s.nonces ∧ s'.accepted = s.accepted

/-- Nothing is accepted yet. -/
def authStart (clock : Int) (workers : List Worker) (nonces : List WorkerNonce) :
    Pool AuthState WorkerProtocolError AuthenticatedWorker :=
  ⟨⟨clock, workers, nonces, []⟩, []⟩

theorem AuthMoves.keeps {s s' : AuthState} (h : AuthMoves s s') (hi : AcceptedOnce s) :
    AcceptedOnce s' ∧ Later s s' := by
  obtain ⟨hclock, hnonces, haccepted⟩ := h
  refine ⟨⟨haccepted ▸ hi.1, fun signed hmem => ?_⟩, hclock, haccepted ▸ List.suffix_refl _⟩
  rcases hi.2 signed (haccepted ▸ hmem) with hpast | hrow
  · exact .inl (lt_of_lt_of_le hpast hclock)
  · exact .inr (hnonces ▸ hrow)

theorem authenticating_agree :
    Pool.Agree (Authenticating sha256 ed25519) AuthMoves AcceptedOnce Timely (fun _ => Later) (fun _ => Later)
      Answered where
  refl _ := inferInstance
  trans _ := inferInstance
  start := by
    rintro n p s ⟨request, rfl⟩ _
    exact authenticateWorker_keeps sha256 ed25519 request s
  others _ _ _ h := h
  outside h hi := ⟨(h.keeps hi).1, fun _ => (h.keeps hi).2⟩

/-- Where requests are accepted in time, none is accepted twice. -/
theorem accepted_once (clock : Int) (workers : List Worker) (nonces : List WorkerNonce)
    (pool : Pool AuthState WorkerProtocolError AuthenticatedWorker)
    (hrun : Pool.StepsIn (Authenticating sha256 ed25519) AuthMoves Timely (authStart clock workers nonces) pool) :
    pool.state.accepted.Nodup := by
  have hstart : (authStart clock workers nonces).Good AcceptedOnce Timely (fun _ => Later) (fun _ => Later) Answered :=
    Pool.good_start ⟨List.nodup_nil, by simp⟩
  exact (hstart.stepsIn (authenticating_agree sha256 ed25519) hrun).1.1

end

/-! ## A replay -/

def replayWorker : Worker := ⟨"w1", "AAAAAAAAAAAAAAAAAAAAAAAAAAAAAAAAAAAAAAAAAAA=", .active⟩

def replayRequest : WorkerRequest where
  method := "POST"
  pathAndQuery := "/api/worker/jobs/claim"
  body := [123, 125]
  worker := some "w1"
  timestamp := some "1000"
  nonce := some "0123456789abcdef0123456789abcdef"
  signature := some "AAAAAAAAAAAAAAAAAAAAAAAAAAAAAAAAAAAAAAAAAAAAAAAAAAAAAAAAAAAAAAAAAAAAAAAAAAAAAAAAAAAAAA=="

def anyHash (_ : Bytes) : Hash.Digest := .zero

def anySignature (_ : Bytes) (_ : String) (_ : Bytes) : Bool := true

def replaySigned : SignedRequest := ⟨"w1", "0123456789abcdef0123456789abcdef", 1000, [123, 125]⟩

def AuthState.setClock (clock : Int) (s : AuthState) : AuthState := { s with clock }

/-- The request has started, a minute before its timestamp. -/
def replayStarted : Pool AuthState WorkerProtocolError AuthenticatedWorker :=
  (authStart 940 [replayWorker] []).starting (authenticateWorker anyHash anySignature replayRequest)

theorem replayStarted_next :
    Pool.Next (Authenticating anyHash anySignature) AuthMoves (authStart 940 [replayWorker] []) replayStarted :=
  Pool.starting_next _ ⟨replayRequest, rfl⟩

/-- It is accepted. -/
def replayStored : Pool AuthState WorkerProtocolError AuthenticatedWorker := replayStarted.turns [0, 0, 0, 0, 0]

/-- Its copy's timestamp is checked a minute after it. -/
def replayChecked : Pool AuthState WorkerProtocolError AuthenticatedWorker :=
  ((replayStored.starting (authenticateWorker anyHash anySignature replayRequest)).moving
    (AuthState.setClock 1060)).turns [1]

/-- The copy's nonce is stored a second later. -/
def replayAccepted : Pool AuthState WorkerProtocolError AuthenticatedWorker :=
  (replayChecked.moving (AuthState.setClock 1061)).turns [1, 1, 1, 1]

theorem replayStored_once : replayStored.state.accepted.Nodup := by
  refine accepted_once anyHash anySignature 940 [replayWorker] [] _ (.head ⟨replayStarted_next, .inl rfl⟩ ?_)
  apply Pool.turns_stepsIn
  intro k hk
  -- only the fifth step accepts
  have htimely : ∀ k < 5,
      let s := (replayStarted.turns ([0, 0, 0, 0, 0].take k)).state
      let s' := (replayStarted.turns ([0, 0, 0, 0, 0].take (k + 1))).state
      s'.accepted = s.accepted ∨
        s'.accepted = replaySigned :: s.accepted ∧ s.clock ≤ replaySigned.timestamp + clockSkewSeconds := by
    decide +kernel
  rcases htimely k hk with hsame | ⟨hcons, hclock⟩
  · exact .inl hsame
  · exact .inr ⟨replaySigned, hcons, hclock⟩

theorem replayAccepted_steps :
    Pool.Steps (Authenticating anyHash anySignature) AuthMoves (authStart 940 [replayWorker] []) replayAccepted := by
  have hstored : replayStored.state.clock ≤ 1060 := by decide +kernel
  have hchecked : replayChecked.state.clock ≤ 1061 := by decide +kernel
  have hstart : Pool.Steps (Authenticating anyHash anySignature) AuthMoves (authStart 940 [replayWorker] [])
      replayStored := .head replayStarted_next (Pool.turns_steps _ _)
  have hsecond := ((hstart.starting ⟨replayRequest, rfl⟩).moving (AuthState.setClock 1060) ⟨hstored, rfl, rfl⟩).turns [1]
  exact (hsecond.moving (AuthState.setClock 1061) ⟨hchecked, rfl, rfl⟩).turns _

/-- One signed request accepted twice. -/
theorem replay_accepted :
    ¬∀ pool, Pool.Steps (Authenticating anyHash anySignature) AuthMoves (authStart 940 [replayWorker] []) pool →
      pool.state.accepted.Nodup := by
  intro h
  have htwice : replayAccepted.state.accepted = [replaySigned, replaySigned] := by decide +kernel
  have hnodup := h replayAccepted replayAccepted_steps
  rw [htwice] at hnodup
  exact absurd hnodup (by simp)

end Omapkg.Server
