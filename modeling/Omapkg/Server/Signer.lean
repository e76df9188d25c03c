import Omapkg.Server.Signing
/-!
# The signer

A run of `src/signer/src/index.ts` on one intent: claim it, sign unless a
signature is stored already, store the signature and report it. Then who asks
for a signature and waits for the signer's answer.
-/

namespace Omapkg.Server

open Utf Prog

/-- The signer's configuration and key; `verify` is OpenPGP's, of a message and
a signature. -/
structure Signer where
  fingerprint : String
  keyId : String
  publicKeyKey : Option String
  armored : Bytes
  maxArtifactBytes : Nat
  managed : Bool
  verify : Bytes → Bytes → Bool

/-- A request to sign; `sign` is what the key, here or in the managed service,
makes of the artifact's bytes this time. -/
structure SignerRun where
  signer : Signer
  control : ControlEnv
  intentId : String
  sign : Bytes → Except String Bytes

structure SignResult where
  signatureKey : String
  signatureSha256 : String

def Signer.key (signer : Signer) : String := signer.publicKeyKey.getD "keys/opr-package-signing.asc"

/-! ## Objects -/

def isSignerFilename (value : String) : Bool := isName ['.', '_', '+', '@', '%', ':', '=', '~', '-'] 254 value

/-- Stores an object; a signature stored over another object is counted. -/
def putObject (key : String) (o : StoredObject) : Prog SigningState SigningThrow Unit :=
  modify fun s => { s with
    objects := Function.update s.objects key (some o)
    replaced := if isSignatureKey key ∧ (s.objects key).isSome then s.replaced + 1 else s.replaced }

def getObject (key missing : String) : Prog SigningState SigningThrow StoredObject := do
  let object ← read (·.objects key)
  match object with
  | none => fail (.signer missing)
  | some o => pure o

/-- The control plane's answer, or the status of its error. -/
def answered {α : Type} (p : Prog SigningState SigningThrow α) (what : String) : Prog SigningState SigningThrow α :=
  p.mapError fun cause =>
    match cause with
    | .control status _ => .signer s!"{what} returned {status}"
    | _ => .signer s!"{what} returned 500"

def databaseSuffixes : List String :=
  [".db", ".files", ".db.tar.zst", ".db.tar.xz", ".db.tar.gz", ".db.tar.bz2", ".files.tar.zst", ".files.tar.xz",
    ".files.tar.gz", ".files.tar.bz2"]

/-- What the signer checks of the intent itself. -/
def assertIntentShape (intent : SignIntent) (now : Int) (signer : Signer) : Except SigningThrow Unit :=
  let refuse (message : String) : Except SigningThrow Unit := .error (.signer message)
  if isSigningId intent.id = false then refuse "invalid signing intent identity"
  else if intent.signed = false ∧ intent.expiresAt ≤ now then refuse "signing intent expired"
  else if lower intent.keyFingerprint ≠ signer.fingerprint then refuse "signing key fingerprint mismatch"
  else if intent.artifact.key = "" ∨ intent.artifact.key.toList.length > 512 ∨ intent.artifact.key.toList.head? = some '/' ∨
      intent.artifact.key.toList.contains '\x00' ∨ (intent.artifact.key.toList.splitOn '/').any (· = ['.', '.']) then
    refuse "invalid artifact key"
  else if Hash.isHexDigest intent.artifact.sha256.toList = false ∨ intent.artifact.size = 0 ∨
      intent.artifact.size > signer.maxArtifactBytes then
    refuse "invalid artifact digest or size"
  else if isSignerFilename intent.artifact.filename = false then refuse "invalid artifact filename"
  else if intent.kind = .package ∧ ".pkg.tar.zst".toList.isSuffixOf intent.artifact.filename.toList = false then
    refuse "package signature requires a .pkg.tar.zst file"
  else if intent.kind = .database ∧
      databaseSuffixes.all (fun suffix => suffix.toList.isSuffixOf intent.artifact.filename.toList = false) then
    refuse "database signature requires an Arch repository database filename"
  else if intent.kind = .attestation ∧ (intent.artifact.filename ≠ "attestation.json" ∨ intent.artifact.size > 1024 * 1024) then
    refuse "invalid attestation object"
  else if intent.kind = .manifest ∧ (intent.artifact.filename ≠ "manifest.json" ∨
      "distribution/releases/".toList.isPrefixOf intent.artifact.key.toList = false ∨
      intent.artifact.size > 4 * 1024 * 1024 ∨ intent.manifest.all (fun (candidateId, manifestSha256) =>
        isSigningId candidateId = false || Hash.isHexDigest manifestSha256.toList = false ||
          intent.artifact.sha256 ≠ manifestSha256)) then
    refuse "invalid distribution manifest signing subject"
  else if intent.signed ∧ intent.signature.all (fun signature =>
      Hash.isHexDigest signature.sha256.toList = false || signature.key ≠ intent.artifact.key ++ ".sig" ||
        signature.filename ≠ intent.artifact.filename ++ ".sig") then
    refuse "signed intent has incomplete signature evidence"
  else .ok ()

def persistPublicKey (signer : Signer) : Prog SigningState SigningThrow String := do
  let existing ← read (·.objects signer.key)
  match existing with
  | some o =>
    if o.field "fingerprint" ≠ some signer.fingerprint then fail (.signer "public key object fingerprint mismatch")
    else pure signer.key
  | none =>
    let _ ← putObject signer.key ⟨signer.armored, [("fingerprint", signer.fingerprint), ("keyId", signer.keyId)]⟩
    pure signer.key

section
variable (sha256 : Bytes → Hash.Digest)

/-! ## Signatures -/

/-- A signature that was read, with its digest. -/
structure ExistingSignature where
  bytes : Bytes
  sha256 : String

/-- The object must have the size of a signature and the digest it was stored with. -/
def checkExisting (recorded : Option String) (o : StoredObject) : Except SigningThrow ExistingSignature :=
  if o.bytes.length = 0 ∨ o.bytes.length > 2 ^ 20 then .error (.signer "persisted signature is unavailable")
  else if metadataAgrees recorded (sha256 o.bytes).hex = false then .error (.signer "persisted signature digest changed")
  else .ok ⟨o.bytes, (sha256 o.bytes).hex⟩

def readExistingSignatureObject (intent : SignIntent) : Prog SigningState SigningThrow (Option ExistingSignature) := do
  let existing ← read (·.objects (intent.artifact.key ++ ".sig"))
  match existing with
  | none => pure none
  | some head =>
    if metadataAgrees (head.field "artifactSha256") intent.artifact.sha256 = false then
      fail (.signer "signature object already exists for different artifact bytes")
    else
      let object ← getObject (intent.artifact.key ++ ".sig") "persisted signature is unavailable"
      let signature ← ofExcept (checkExisting sha256 (head.field "signatureSha256" <|> head.field "sha256") object)
      pure (some signature)

/-- The artifact must still have its size, and its digest if that is asked for. -/
def checkArtifact (intent : SignIntent) (o : StoredObject) (digest : Bool) (changed : String) : Except SigningThrow Unit :=
  if o.bytes.length ≠ intent.artifact.size then .error (.signer changed)
  else if digest ∧ (sha256 o.bytes).hex ≠ intent.artifact.sha256 then .error (.signer "artifact hash changed")
  else .ok ()

/-- `signArtifact` and `signArtifactManaged`. -/
def signArtifact (run : SignerRun) (intent : SignIntent) : Prog SigningState SigningThrow Bytes := do
  let object ← getObject intent.artifact.key "artifact was not found"
  let _ ← ofExcept (checkArtifact sha256 intent object false "artifact size changed")
  match run.sign object.bytes with
  | .error message => fail (.signer message)
  | .ok bytes =>
    let _ ← ofExcept (checkArtifact sha256 intent object true "artifact size changed")
    if bytes.length = 0 ∨ bytes.length > 2 ^ 20 then
      fail (.signer (if run.signer.managed then "managed KMS signature digest is invalid"
        else "generated signature has invalid size"))
    else pure bytes

def verifySignature (signer : Signer) (intent : SignIntent) (signature : Bytes) : Prog SigningState SigningThrow Unit := do
  let object ← getObject intent.artifact.key "artifact disappeared during verification"
  let _ ← ofExcept (checkArtifact sha256 intent object false "artifact size changed during verification")
  if signer.verify object.bytes signature = false then fail (.signer "signature could not be verified")
  else
    let again ← getObject intent.artifact.key "artifact size changed during verification"
    ofExcept (checkArtifact sha256 intent again true "artifact size changed during verification")

/-- Stores a signature, unless one is found at its key; that one is taken then. -/
def persistSignature (signer : Signer) (intent : SignIntent) (bytes : Bytes) :
    Prog SigningState SigningThrow SignatureRef := do
  let key := intent.artifact.key ++ ".sig"
  let signatureSha256 := (sha256 bytes).hex
  let existing ← read (·.objects key)
  match existing with
  | some _ =>
    let persisted ← readExistingSignatureObject sha256 intent
    match persisted with
    | none => fail (.signer "signature object disappeared during verification")
    | some signature =>
      let _ ← verifySignature sha256 signer intent signature.bytes
      pure ⟨key, signature.sha256, intent.artifact.filename ++ ".sig"⟩
  | none =>
    let _ ← putObject key ⟨bytes,
      [("intentId", intent.id), ("artifactSha256", intent.artifact.sha256), ("sha256", signatureSha256),
        ("signatureSha256", signatureSha256), ("fingerprint", signer.fingerprint), ("keyId", signer.keyId)]⟩
    pure ⟨key, signatureSha256, intent.artifact.filename ++ ".sig"⟩

def signingEvent (signer : Signer) (intent : SignIntent) (signature : SignatureRef) (publicKeyKey : String) : SigningEvent where
  intentId := intent.id
  kind := intent.kind
  buildId := (intent.build.map (·.1)).getD s!"manifest-{(intent.manifest.map (·.1)).getD intent.id}"
  revisionId := (intent.build.map (·.2)).getD ((intent.manifest.map (·.1)).getD intent.id)
  candidateId := intent.manifest.map (·.1)
  artifactKey := intent.artifact.key
  artifactSha256 := intent.artifact.sha256
  signatureKey := signature.key
  signatureSha256 := signature.sha256
  signatureFilename := signature.filename
  publicKeyKey := publicKeyKey
  fingerprint := signer.fingerprint
  keyId := signer.keyId

/-- `POST /api/internal/signing-events`. -/
def postSigningEvent (env : ControlEnv) (event : SigningEvent) : Prog SigningState SigningThrow Bool := do
  let _ ← ofExcept (checkEvent event)
  completeSigningIntent sha256 env { event with fingerprint := lower event.fingerprint }

def recordAudit (run : SignerRun) (intent : SignIntent) (signature : SignatureRef) (publicKeyKey : String) :
    Prog SigningState SigningThrow Bool :=
  answered (postSigningEvent sha256 run.control (signingEvent run.signer intent signature publicKeyKey)) "audit write"

def readPersistedSignature (intent : SignIntent) (signature : SignatureRef) :
    Prog SigningState SigningThrow ExistingSignature :=
  if signature.key ≠ intent.artifact.key ++ ".sig" then fail (.signer "signed intent has no signature evidence")
  else do
    let persisted ← readExistingSignatureObject sha256 intent
    match persisted with
    | none => fail (.signer "persisted signature digest changed")
    | some found =>
      if found.sha256 ≠ signature.sha256 then fail (.signer "persisted signature digest changed") else pure found

/-- A signature for an intent that is not signed yet: one that is stored, or a new one. -/
def signIntent (run : SignerRun) (intent : SignIntent) (publicKeyKey : String) :
    Prog SigningState SigningThrow SignResult := do
  let attested ← read fun s => s.attested intent
  let _ ← ofExcept attested
  let existing ← readExistingSignatureObject sha256 intent
  let bytes ← match existing with
    | some signature => pure signature.bytes
    | none => signArtifact sha256 run intent
  let _ ← verifySignature sha256 run.signer intent bytes
  let signature ← persistSignature sha256 run.signer intent bytes
  let _ ← recordAudit sha256 run intent signature publicKeyKey
  pure ⟨signature.key, signature.sha256⟩

def handleSign (run : SignerRun) : Prog SigningState SigningThrow SignResult := do
  let intent ← answered (claimSigningIntent sha256 run.control run.intentId) "control plane"
  if intent.id ≠ run.intentId then fail (.signer "control plane returned a different intent")
  else
    let now ← read (·.clock)
    let _ ← ofExcept (assertIntentShape intent now run.signer)
    let publicKeyKey ← persistPublicKey run.signer
    if intent.signed then
      match intent.signature with
      | none => fail (.signer "signed intent has no signature evidence")
      | some signature =>
        let persisted ← readPersistedSignature sha256 intent signature
        let _ ← verifySignature sha256 run.signer intent persisted.bytes
        pure ⟨signature.key, signature.sha256⟩
    else signIntent sha256 run intent publicKeyKey

/-! ## Asking for signatures -/

structure SignatureInput where
  buildId : String
  buildAttempt : Option Nat
  revisionId : String
  manifestSha256 : String
  objectKey : String
  objectKind : SignKind
  artifactSha256 : String
  artifactSize : Nat
  artifactFilename : String

def newIntent (input : SignatureInput) (intentId : String) (createdAt : Int) (fingerprint : Option String) : SigningIntent where
  id := intentId
  buildId := input.buildId
  revisionId := input.revisionId
  objectKey := input.objectKey
  objectKind := input.objectKind
  artifactSha256 := input.artifactSha256
  artifactFilename := input.artifactFilename
  manifestSha256 := input.manifestSha256
  status := .pending
  signatureKey := none
  signatureSha256 := none
  createdAt := createdAt
  consumedAt := none
  expiresAt := some (createdAt + 3600)
  artifactSize := some input.artifactSize
  claimedAt := none
  claimExpiresAt := none
  keyFingerprint := fingerprint
  buildAttempt := input.buildAttempt

def insertIntent (row : SigningIntent) : Sql.Statement SigningState := fun s _ =>
  match s.fence none row with
  | some raised => .error raised
  | none => do
    let (intents, n) ← Sql.insert (·.id = row.id) "UNIQUE constraint failed: signing_intents.id" row s.intents
    .ok ({ s with intents }, n)

/-- The signer's answer, or that there was none. -/
def askSigner (run : SignerRun) (reached : Bool) : Prog SigningState SigningThrow (Except SigningThrow SignResult) :=
  if reached then (handleSign sha256 run).attempt
  else pure (.error (.policy 503 "Package signing service could not be reached."))

def failIntent (intentId : String) (e : SigningThrow) : Prog SigningState SigningThrow SignResult := do
  let _ ← runOne (updateIntents (fun r => r.id = intentId && r.status = .pending) fun r => { r with status := .failed })
  fail e

def signerRefused (cause : SigningThrow) : SigningThrow :=
  match cause with
  | .signer message => .policy 503 s!"Package signing service rejected request (409). {message}"
  | cause => cause

/-- `requestSignature`. -/
def requestSignature (input : SignatureInput) (run : SignerRun) (reached : Bool) :
    Prog SigningState SigningThrow SignResult := do
  let createdAt ← read (·.clock)
  if isSafeKey input.objectKey = false then fail (.policy 409 "Invalid object key.")
  else
    let _ ← runOne (insertIntent (newIntent input run.intentId createdAt (run.control.signingFingerprint.map lower)))
    let result ← askSigner sha256 run reached
    match result with
    | .error cause => failIntent run.intentId (signerRefused cause)
    | .ok result =>
      if isSafeKey result.signatureKey = false ∨ Hash.isHexDigest result.signatureSha256.toList = false ∨
          ((input.objectKind = .attestation ∨ input.buildAttempt.isSome) ∧ result.signatureKey ≠ input.objectKey ++ ".sig") then
        failIntent run.intentId (.policy 503 "Package signing service returned no immutable signature object.")
      else
        let object ← read (·.objects result.signatureKey)
        if object.all (fun o => o.field "sha256" ≠ some result.signatureSha256 &&
            o.field "signatureSha256" ≠ some result.signatureSha256) then
          failIntent run.intentId (.policy 503 "Package signing service did not publish a verifiable signature object.")
        else
          let consumedAt ← read (·.clock)
          let _ ← runOne (updateIntents (fun r => r.id = run.intentId && r.status = .pending)
            fun r => { r with status := .signed, signatureKey := some result.signatureKey,
                              signatureSha256 := some result.signatureSha256, consumedAt := some consumedAt })
          pure result

def newManifestIntent (candidateId objectKey artifactSha256 intentId : String) (createdAt : Int) (fingerprint : String) :
    ManifestIntent :=
  ⟨intentId, candidateId, objectKey, artifactSha256, "manifest.json", artifactSha256, .pending, none, none, createdAt, none,
    createdAt + 3600, fingerprint⟩

def insertManifest (row : ManifestIntent) : Sql.Statement SigningState := fun s _ => do
  let (manifests, n) ← Sql.insert (·.id = row.id) "UNIQUE constraint failed: distribution_manifest_signing_intents.id" row
    s.manifests
  .ok ({ s with manifests }, n)

/-- `requestManifestSignature`, of a manifest whose digest is its candidate's. -/
def requestManifestSignature (candidateId objectKey artifactSha256 : String) (run : SignerRun) (reached : Bool) :
    Prog SigningState SigningThrow SignResult := do
  let createdAt ← read (·.clock)
  if isSafeKey objectKey = false then fail (.policy 409 "Invalid object key.")
  else
    let _ ← runOne (insertManifest (newManifestIntent candidateId objectKey artifactSha256 run.intentId createdAt
      (lower (run.control.signingFingerprint.getD ""))))
    let result ← askSigner sha256 run reached
    match result with
    | .error cause =>
      let _ ← runOne (updateManifests (fun r => r.id = run.intentId && r.status = .pending)
        fun r => { r with status := .failed })
      fail (signerRefused cause)
    | .ok result =>
      if result.signatureKey ≠ objectKey ++ ".sig" ∨ Hash.isHexDigest result.signatureSha256.toList = false then
        fail (.policy 503 "Package signing service returned no immutable manifest signature.")
      else
        let object ← read (·.objects result.signatureKey)
        if object.all (fun o => metadataAgrees (o.field "sha256") result.signatureSha256 &&
            metadataAgrees (o.field "signatureSha256") result.signatureSha256) && object.isSome then
          pure result
        else fail (.policy 503 "Package signing service did not publish a verifiable manifest signature.")

end

end Omapkg.Server
