import Mathlib.Logic.Function.Basic
import Omapkg.Lib.Sql
import Omapkg.Server.Validate
/-!
# Signing intents

The control plane's side of signing, `src/src/lib/server/signing-control.ts`:
an intent is claimed by a signer and completed with the signature it stored.
What other tables say of an intent, and the triggers that read them, is asked
of the state. Audit rows are left out.
-/

namespace Omapkg.Server

open Utf Prog

def signingIntentTtlSeconds : Int := 60 * 60

def signingClaimTtlSeconds : Int := 15 * 60

def maxSignatureBytes : Nat := 1 * 1024 * 1024

/-! ## Rows and objects -/

inductive IntentStatus where
  | pending | signed | failed | expired
  deriving DecidableEq, Repr

inductive SignKind where
  | package | database | attestation | manifest
  deriving DecidableEq, Repr

/-- A row of `signing_intents`; its kind is not `manifest`. -/
structure SigningIntent where
  id : String
  buildId : String
  revisionId : String
  objectKey : String
  objectKind : SignKind
  artifactSha256 : String
  artifactFilename : String
  manifestSha256 : String
  status : IntentStatus
  signatureKey : Option String
  signatureSha256 : Option String
  createdAt : Int
  consumedAt : Option Int
  expiresAt : Option Int
  artifactSize : Option Nat
  claimedAt : Option Int
  claimExpiresAt : Option Int
  keyFingerprint : Option String
  buildAttempt : Option Nat

/-- A row of `distribution_manifest_signing_intents`. -/
structure ManifestIntent where
  id : String
  candidateId : String
  objectKey : String
  artifactSha256 : String
  artifactFilename : String
  manifestSha256 : String
  status : IntentStatus
  signatureKey : Option String
  signatureSha256 : Option String
  createdAt : Int
  consumedAt : Option Int
  expiresAt : Int
  keyFingerprint : String

/-- An object of the bucket, with its custom metadata. -/
structure StoredObject where
  bytes : Bytes
  metadata : List (String × String)

def StoredObject.field (o : StoredObject) (name : String) : Option String := o.metadata.lookup name

structure ObjectRef where
  key : String
  sha256 : String
  size : Nat
  filename : String

structure SignatureRef where
  key : String
  sha256 : String
  filename : String

/-- What the control plane answers a claim with, less the build's evidence. -/
structure SignIntent where
  id : String
  signed : Bool
  kind : SignKind
  expiresAt : Int
  keyFingerprint : String
  artifact : ObjectRef
  build : Option (String × String)
  manifest : Option (String × String)
  signature : Option SignatureRef

/-- What a signer reports. -/
structure SigningEvent where
  intentId : String
  kind : SignKind
  buildId : String
  revisionId : String
  candidateId : Option String
  artifactKey : String
  artifactSha256 : String
  signatureKey : String
  signatureSha256 : String
  signatureFilename : String
  publicKeyKey : String
  fingerprint : String
  keyId : String

/-- A `SigningControlError`, an `Error` of the signer, a `PolicyError` of who
asked for the signature, or what the database raised. -/
inductive SigningThrow where
  | control (status : Nat) (message : String)
  | signer (message : String)
  | policy (status : Nat) (message : String)
  | database (raised : Sql.Raised)

/-- The tables, the bucket and the clock. `review` and `candidate` are what the
other tables say of an intent, `attested` is what the signer makes of a build's
evidence, and `fence` is what the triggers raise for a row that is added or
that changes. The last field is no column: it counts the signatures that a
signer stored over an object. -/
structure SigningState where
  clock : Int
  intents : List SigningIntent
  manifests : List ManifestIntent
  objects : String → Option StoredObject
  review : SigningIntent → Nat → Bool → Except SigningThrow Unit
  candidate : ManifestIntent → Except SigningThrow Unit
  attested : SignIntent → Except SigningThrow Unit
  fence : Option SigningIntent → SigningIntent → Option Sql.Raised
  replaced : Nat

def intentRow (intentId : String) (s : SigningState) : Option SigningIntent := s.intents.find? (·.id = intentId)

def manifestRow (intentId : String) (s : SigningState) : Option ManifestIntent := s.manifests.find? (·.id = intentId)

/-! ## Names -/

def conflict {α : Type} (message : String) : Except SigningThrow α := .error (.control 409 message)

/-- A letter or digit and then at most `n` of those and of `more`. -/
def isName (more : List Char) (n : Nat) (value : String) : Bool :=
  match value.toList with
  | [] => false
  | c :: cs => isAlnum c && cs.all (fun c => isAlnum c || more.contains c) && cs.length ≤ n

def isSigningId (value : String) : Bool := isName ['_', '-'] 127 value

def isSigningFilename (value : String) : Bool := isName ['.', '_', '+', '@', '%', '~', ':', '-'] 254 value

/-- Printable, at most 1024 long, not from the root, and with no part `..`. -/
def isSafeKey (value : String) : Bool :=
  let cs := value.toList
  cs.head? ≠ some '/' && (cs.splitOn '/').all (· ≠ ['.', '.']) && 1 ≤ cs.length && cs.length ≤ 1024 &&
    cs.all fun c => '!' ≤ c && c ≤ '~'

def lower (value : String) : String := String.ofList (value.toList.map Char.toLower)

def isFingerprint (value : String) : Bool := value.toList.length = 40 && value.toList.all Hash.isLowerHex

/-- `.sig` at the end. -/
def isSignatureKey (key : String) : Bool := ".sig".toList.isSuffixOf key.toList

structure ControlEnv where
  signingFingerprint : Option String
  publicKeyKey : Option String
  signingKeyId : Option String

def configuredFingerprint (env : ControlEnv) : Except SigningThrow String :=
  let value := lower (env.signingFingerprint.getD "")
  if isFingerprint value then .ok value else .error (.control 503 "Signing fingerprint is not configured.")

def publicKeyKey (env : ControlEnv) : Except SigningThrow String :=
  let key := env.publicKeyKey.getD "keys/opr-package-signing.asc"
  if isSafeKey key then .ok key else .error (.control 503 "Signing public-key object key is invalid.")

/-! ## Statements -/

/-- `UPDATE signing_intents`, unless a trigger raises. -/
def updateIntents (p : SigningIntent → Bool) (f : SigningIntent → SigningIntent) : Sql.Statement SigningState := fun s _ =>
  match (s.intents.filter p).findSome? fun row => s.fence (some row) (f row) with
  | some raised => .error raised
  | none => .ok ({ s with intents := (Sql.update p f s.intents).1 }, (Sql.update p f s.intents).2)

def updateManifests (p : ManifestIntent → Bool) (f : ManifestIntent → ManifestIntent) : Sql.Statement SigningState :=
  fun s _ => .ok ({ s with manifests := (Sql.update p f s.manifests).1 }, (Sql.update p f s.manifests).2)

/-- A trigger lets no update name a column that holds what is signed. -/
def updateManifestInputs (p : ManifestIntent → Bool) : Sql.Statement SigningState := fun s _ =>
  if s.manifests.any p then .error ⟨"distribution manifest signing inputs are immutable"⟩ else .ok (s, 0)

def runOne (statement : Sql.Statement SigningState) : Prog SigningState SigningThrow (List Nat) :=
  Sql.run [statement] .database

/-- `COALESCE(expires_at,created_at+?)`. -/
def expiresBy (row : SigningIntent) : Int := row.expiresAt.getD (row.createdAt + signingIntentTtlSeconds)

def expiry (row : SigningIntent) : Except SigningThrow Int :=
  if (expiresBy row).natAbs > maxSafeInteger ∨ expiresBy row ≤ row.createdAt then conflict "Signing intent expiry is invalid."
  else .ok (expiresBy row)

def markExpired (intentId : String) : Prog SigningState SigningThrow (List Nat) :=
  runOne (updateIntents (fun row => row.id = intentId && row.status = .pending) fun row => { row with status := .expired })

def resetFailed (intentId : String) (timestamp : Int) : Prog SigningState SigningThrow (List Nat) :=
  runOne (updateIntents
    (fun row => row.id = intentId && row.status = .failed && row.signatureKey = none && expiresBy row > timestamp)
    fun row => { row with status := .pending, claimedAt := none, claimExpiresAt := none })

def load (intentId : String) : Prog SigningState SigningThrow SigningIntent := do
  let found ← read (intentRow intentId)
  match found with
  | none => fail (.control 404 "Signing intent not found.")
  | some row => pure row

/-! ## Checks -/

/-- The digest the metadata gives, if it gives one that is not empty, is this. -/
def metadataAgrees (digest : Option String) (expected : String) : Bool := digest.all fun d => d = "" || d = expected

def artifactSize (row : SigningIntent) : Prog SigningState SigningThrow Nat := do
  let object ← read (·.objects row.objectKey)
  match object with
  | none => fail (.control 409 "Signing artifact is unavailable.")
  | some o =>
    if row.artifactSize.any (· ≠ o.bytes.length) then fail (.control 409 "Signing artifact size changed.")
    else if metadataAgrees (o.field "sha256" <|> o.field "artifactSha256") row.artifactSha256 then pure o.bytes.length
    else fail (.control 409 "Signing artifact metadata digest changed.")

/-- What the intent's own row must be. -/
def checkIntentRow (row : SigningIntent) (fingerprint : String) : Except SigningThrow Unit :=
  if row.keyFingerprint.any (fun key => key ≠ "" && lower key ≠ fingerprint) then
    conflict "Signing key fingerprint changed."
  else if Hash.isHexDigest row.artifactSha256.toList = false then conflict "Signing artifact digest is invalid."
  else if isSafeKey row.objectKey = false then conflict "Signing artifact key is invalid."
  else if isSigningFilename row.artifactFilename = false then conflict "Signing artifact filename is invalid."
  else .ok ()

def validateEvidence (row : SigningIntent) (fingerprint : String) (size : Nat) (requireCurrentReview : Bool) :
    Prog SigningState SigningThrow Unit := do
  let _ ← ofExcept (checkIntentRow row fingerprint)
  let answer ← read fun s => s.review row size requireCurrentReview
  ofExcept answer

/-- The signature evidence of a signed row. -/
def rowSignature (key : Option String) (digest : Option String) (objectKey artifactFilename message : String) :
    Except SigningThrow SignatureRef :=
  match key, digest with
  | some key, some digest =>
    if Hash.isHexDigest digest.toList = false ∨ key ≠ objectKey ++ ".sig" then conflict message
    else .ok ⟨key, digest, artifactFilename ++ ".sig"⟩
  | _, _ => conflict message

/-- The signature an answer gives, if its row is signed. -/
def answerSignature (status : IntentStatus) (signature : Except SigningThrow SignatureRef) :
    Except SigningThrow (Option SignatureRef) :=
  if status = .signed then signature.map some else .ok none

def response (row : SigningIntent) (fingerprint : String) (size : Nat) : Except SigningThrow SignIntent := do
  let expiresAt ← expiry row
  let signature ← answerSignature row.status (rowSignature row.signatureKey row.signatureSha256 row.objectKey
    row.artifactFilename "Signed intent has incomplete signature evidence.")
  .ok ⟨row.id, row.status = .signed, row.objectKind, expiresAt, fingerprint,
    ⟨row.objectKey, row.artifactSha256, size, row.artifactFilename⟩, some (row.buildId, row.revisionId), none, signature⟩

def manifestResponse (row : ManifestIntent) (fingerprint : String) (size : Nat) : Except SigningThrow SignIntent := do
  let signature ← answerSignature row.status (rowSignature row.signatureKey row.signatureSha256 row.objectKey
    row.artifactFilename "Signed manifest intent has incomplete signature evidence.")
  .ok ⟨row.id, row.status = .signed, .manifest, row.expiresAt, fingerprint,
    ⟨row.objectKey, row.artifactSha256, size, row.artifactFilename⟩, none, some (row.candidateId, row.manifestSha256), signature⟩

section
variable (sha256 : Bytes → Hash.Digest)

def checkSignatureObject (object : Option StoredObject) (expected : String) : Except SigningThrow Unit :=
  match object with
  | none => conflict "Signature object is unavailable."
  | some o =>
    if o.bytes.length = 0 ∨ o.bytes.length > maxSignatureBytes then conflict "Signature object size is invalid."
    else if (sha256 o.bytes).hex ≠ expected then conflict "Signature object digest does not match event."
    else .ok ()

def verifySignatureObject (key expected : String) : Prog SigningState SigningThrow Unit := do
  let object ← read (·.objects key)
  ofExcept (checkSignatureObject sha256 object expected)

def checkManifestObject (row : ManifestIntent) (object : Option StoredObject) : Except SigningThrow Nat :=
  match object with
  | none => conflict "Manifest object is unavailable."
  | some o =>
    if o.bytes.length = 0 ∨ o.bytes.length > 4 * 1024 * 1024 then conflict "Manifest object is unavailable."
    else if (sha256 o.bytes).hex ≠ row.artifactSha256 then conflict "Manifest bytes changed before signing."
    else .ok o.bytes.length

def manifestArtifactSize (row : ManifestIntent) : Prog SigningState SigningThrow Nat :=
  if isSafeKey row.objectKey = false ∨ "distribution/releases/".toList.isPrefixOf row.objectKey.toList = false then
    fail (.control 409 "Manifest signing object is outside the distribution namespace.")
  else if row.artifactFilename ≠ "manifest.json" ∨ Hash.isHexDigest row.artifactSha256.toList = false ∨
      row.manifestSha256 ≠ row.artifactSha256 then
    fail (.control 409 "Manifest signing evidence is invalid.")
  else do
    let object ← read (·.objects row.objectKey)
    ofExcept (checkManifestObject sha256 row object)

/-! ## Claiming -/

def claimManifestIntent (row : ManifestIntent) (fingerprint : String) : Prog SigningState SigningThrow SignIntent :=
  if row.keyFingerprint ≠ fingerprint then fail (.control 409 "Signing key fingerprint changed.")
  else if row.status = .expired then fail (.control 409 "Signing intent has expired.")
  else do
    let timestamp ← read (·.clock)
    if row.expiresAt ≤ timestamp then
      let _ ← runOne (updateManifests (fun r => r.id = row.id && r.status = .pending) fun r => { r with status := .expired })
      fail (.control 409 "Signing intent has expired.")
    else
      let answer ← read fun s => if row.status = .signed then .ok () else s.candidate row
      let _ ← ofExcept answer
      let size ← manifestArtifactSize sha256 row
      match row.status, row.signatureKey, row.signatureSha256 with
      | .signed, some key, some digest => do
        let _ ← verifySignatureObject sha256 key digest
        ofExcept (manifestResponse row fingerprint size)
      | _, _, _ => ofExcept (manifestResponse row fingerprint size)

/-- The answer for an intent that is signed. -/
def answerSigned (row : SigningIntent) (fingerprint : String) : Prog SigningState SigningThrow SignIntent := do
  let size ← artifactSize row
  let _ ← validateEvidence row fingerprint size false
  ofExcept (response row fingerprint size)

/-- A failed intent is pending again, if it has not expired. -/
def retryFailed (row : SigningIntent) (expiresAt timestamp : Int) : Prog SigningState SigningThrow SigningIntent :=
  if row.status = .failed then
    if expiresAt ≤ timestamp then do
      let _ ← markExpired row.id
      fail (.control 409 "Signing intent has expired.")
    else do
      let _ ← resetFailed row.id timestamp
      load row.id
  else pure row

/-- Takes the claim of an intent whose claim is free. -/
def takeClaim (row : SigningIntent) (size : Nat) (timestamp : Int) (fingerprint : String) :
    Prog SigningState SigningThrow SigningIntent :=
  if row.claimExpiresAt.all (· ≤ timestamp) then do
    let _ ← runOne (updateIntents
      (fun r => r.id = row.id && r.status = .pending && expiresBy r > timestamp && r.claimExpiresAt.all (· ≤ timestamp))
      fun r => { r with expiresAt := some (expiresBy r), artifactSize := some size, claimedAt := some timestamp,
                        claimExpiresAt := some (timestamp + signingClaimTtlSeconds), keyFingerprint := some fingerprint })
    load row.id
  else pure row

def claimSigningIntent (env : ControlEnv) (intentId : String) : Prog SigningState SigningThrow SignIntent :=
  if isSigningId intentId = false then fail (.control 400 "Invalid intent ID.")
  else do
    let fingerprint ← ofExcept (configuredFingerprint env)
    let manifest ← read (manifestRow intentId)
    match manifest with
    | some row => claimManifestIntent sha256 row fingerprint
    | none =>
      let found ← load intentId
      let timestamp ← read (·.clock)
      let expiresAt ← ofExcept (expiry found)
      if found.status = .expired then fail (.control 409 "Signing intent has expired.")
      else
        let row ← retryFailed found expiresAt timestamp
        if row.status = .signed then answerSigned row fingerprint
        else if expiresAt ≤ timestamp then
          let _ ← markExpired intentId
          fail (.control 409 "Signing intent has expired.")
        else
          let size ← artifactSize row
          let _ ← validateEvidence row fingerprint size true
          let claimed ← takeClaim row size timestamp fingerprint
          if claimed.status = .signed then answerSigned claimed fingerprint
          else if claimed.status ≠ .pending then fail (.control 409 "Signing intent is no longer active.")
          else
            let claimedSize ← artifactSize claimed
            let _ ← validateEvidence claimed fingerprint claimedSize true
            ofExcept (response claimed fingerprint claimedSize)

/-! ## Completing -/

def checkEvent (event : SigningEvent) : Except SigningThrow Unit :=
  if isSigningId event.intentId = false ∨
      (event.kind ≠ .manifest ∧ (isSigningId event.buildId = false ∨ isSigningId event.revisionId = false)) ∨
      (event.kind = .manifest ∧ isSigningId (event.candidateId.getD "") = false) ∨
      Hash.isHexDigest event.artifactSha256.toList = false ∨ Hash.isHexDigest event.signatureSha256.toList = false ∨
      isFingerprint (lower event.fingerprint) = false ∨ isSafeKey event.artifactKey = false ∨
      isSafeKey event.signatureKey = false ∨ isSafeKey event.publicKeyKey = false ∨
      isSignatureKey event.signatureKey = false ∨ isSignatureKey event.signatureFilename = false ∨
      isSigningFilename event.signatureFilename = false then
    .error (.control 400 "Signing event evidence is invalid.")
  else .ok ()

def eventMatches (row : SigningIntent) (event : SigningEvent) : Bool :=
  row.buildId = event.buildId && row.revisionId = event.revisionId && row.objectKind = event.kind &&
    row.objectKey = event.artifactKey && row.artifactSha256 = event.artifactSha256 &&
    event.signatureKey = row.objectKey ++ ".sig" && event.signatureFilename = row.artifactFilename ++ ".sig"

def manifestEventMatches (row : ManifestIntent) (event : SigningEvent) : Bool :=
  event.candidateId = some row.candidateId && row.candidateId ≠ "" && event.artifactKey = row.objectKey &&
    event.artifactSha256 = row.artifactSha256 && event.signatureKey = row.objectKey ++ ".sig" &&
    event.signatureFilename = row.artifactFilename ++ ".sig"

/-- Whether the evidence of a signed row is the event's. -/
def sameEvidence (key digest : Option String) (event : SigningEvent) : Bool :=
  key = some event.signatureKey && digest = some event.signatureSha256

def completeManifestSigningIntent (event : SigningEvent) (fingerprint : String) : Prog SigningState SigningThrow Bool := do
  let found ← read (manifestRow event.intentId)
  match found with
  | none => fail (.control 404 "Signing intent not found.")
  | some row =>
    if row.keyFingerprint ≠ fingerprint then fail (.control 409 "Signing key fingerprint changed.")
    else if manifestEventMatches row event = false then fail (.control 409 "Manifest signing event does not match intent.")
    else if row.status = .signed then
      if sameEvidence row.signatureKey row.signatureSha256 event then
        let _ ← verifySignatureObject sha256 event.signatureKey event.signatureSha256
        pure true
      else fail (.control 409 "Manifest signing intent already has different signature evidence.")
    else if row.status = .expired then fail (.control 409 "Manifest signing intent is no longer active.")
    else
      let now ← read (·.clock)
      if row.expiresAt ≤ now then fail (.control 409 "Signing intent has expired.")
      else
        let _ ← manifestArtifactSize sha256 row
        let _ ← verifySignatureObject sha256 event.signatureKey event.signatureSha256
        let timestamp ← read (·.clock)
        -- the statement sets `key_fingerprint`, which the trigger refuses whatever the value
        let _ ← runOne (updateManifestInputs fun r =>
          r.id = event.intentId && (r.status = .pending || r.status = .failed) && r.expiresAt > timestamp)
        let current ← read (manifestRow event.intentId)
        match current with
        | some r =>
          if r.status = .signed ∧ sameEvidence r.signatureKey r.signatureSha256 event then pure true
          else fail (.control 409 "Manifest signing intent changed during completion.")
        | none => fail (.control 409 "Manifest signing intent changed during completion.")

/-- Records the evidence of an intent that is not signed and has not expired. -/
def signStatement (event : SigningEvent) (fingerprint : String) (timestamp : Int) : Sql.Statement SigningState :=
  updateIntents
    (fun r => r.id = event.intentId && (r.status = .pending || r.status = .failed) && expiresBy r > timestamp)
    fun r => { r with status := .signed, signatureKey := some event.signatureKey,
                      signatureSha256 := some event.signatureSha256, consumedAt := some timestamp,
                      keyFingerprint := some fingerprint, claimExpiresAt := none }

/-- Completes an intent that is not signed. -/
def completeOpen (row : SigningIntent) (event : SigningEvent) (fingerprint : String) : Prog SigningState SigningThrow Bool :=
  if row.status = .expired then fail (.control 409 "Signing intent is no longer active.")
  else do
    let expiresAt ← ofExcept (expiry row)
    let now ← read (·.clock)
    if expiresAt ≤ now then
      let _ ← markExpired event.intentId
      fail (.control 409 "Signing intent has expired.")
    else
      let size ← artifactSize row
      let _ ← validateEvidence row fingerprint size true
      let _ ← verifySignatureObject sha256 event.signatureKey event.signatureSha256
      let timestamp ← read (·.clock)
      let results ← runOne (signStatement event fingerprint timestamp)
      if results.getD 0 0 = 0 then
        let current ← load event.intentId
        if current.status = .signed ∧ sameEvidence current.signatureKey current.signatureSha256 event then pure true
        else fail (.control 409 "Signing intent changed during completion.")
      else pure false

/-- An intent that is signed is completed again by the same evidence only. -/
def completeSigned (row : SigningIntent) (event : SigningEvent) : Prog SigningState SigningThrow Bool :=
  if sameEvidence row.signatureKey row.signatureSha256 event then do
    let _ ← verifySignatureObject sha256 event.signatureKey event.signatureSha256
    pure true
  else fail (.control 409 "Signing intent already has different signature evidence.")

def completeSigningIntent (env : ControlEnv) (event : SigningEvent) : Prog SigningState SigningThrow Bool := do
  let fingerprint ← ofExcept (configuredFingerprint env)
  if event.fingerprint ≠ fingerprint then fail (.control 409 "Signing key fingerprint mismatch.")
  else if env.signingKeyId.any (fun key => key ≠ "" && event.keyId ≠ key) then
    fail (.control 409 "Signing key ID mismatch.")
  else
    let key ← ofExcept (publicKeyKey env)
    if event.publicKeyKey ≠ key then fail (.control 409 "Public key object mismatch.")
    else if event.kind = .manifest then completeManifestSigningIntent sha256 event fingerprint
    else
      let row ← load event.intentId
      if eventMatches row event = false then fail (.control 409 "Signing event does not match intent.")
      else if row.status = .signed then completeSigned sha256 row event
      else completeOpen sha256 row event fingerprint

end

end Omapkg.Server
