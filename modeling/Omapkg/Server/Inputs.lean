import Omapkg.Server.CanonicalJson
import Omapkg.Server.DependencyGraph
import Omapkg.Server.Uploads
/-!
# Retained inputs

`src/src/lib/server/input-objects.ts`: what a frozen build reads is kept under
its digest. Bytes come whole, from the server itself, or as an upload in parts
that a maintainer starts and completes; those that are canonical JSON are also
indexed by their text.
-/

namespace Omapkg.Server.Inputs

open Utf Prog Multipart Json
open Dependency (Actor Role humanMaintainer)
open Uploads (Outcome uploadPartSize)

def maxInputObject : Nat := 32 * 1024 ^ 3

def maxDocument : Nat := 1024 * 1024

/-! ## Rows -/

/-- An `InputObject`: what the bytes are named by. -/
structure InputObject where
  sha256 : String
  size : Nat
  deriving DecidableEq, Repr

/-- A row of `input_objects`. -/
structure InputObjectRow extends InputObject where
  objectKey : String
  createdBy : String
  createdAt : Int
  deriving DecidableEq

/-- A row of `input_documents`. -/
structure InputDocumentRow where
  sha256 : String
  canonicalJson : String
  deriving DecidableEq

inductive UploadStatus where
  | active | verifying | complete | failed
  deriving DecidableEq, Repr

/-- The columns of `input_uploads` that no statement changes. -/
structure UploadDeclaration extends InputObject where
  id : String
  objectKey : String
  r2UploadId : Nat
  createdBy : String
  createdAt : Int
  expiresAt : Int
  deriving DecidableEq

structure Upload extends UploadDeclaration where
  status : UploadStatus

/-- A row of `input_upload_parts`. -/
structure Part where
  uploadId : String
  partNumber : Nat
  size : Nat
  sha256 : String
  etag : String

/-- The tables, the bucket and the clock. A membership is a GitHub id and its
team; `database` is how the insert of an upload's row ends, the one call whose
failure is caught. -/
structure InputState where
  clock : Int
  memberships : List (String × String)
  inputObjects : List InputObjectRow
  inputDocuments : List InputDocumentRow
  uploads : List Upload
  parts : List Part
  bucket : Bucket String
  database : Outcome

inductive InputThrow where
  | policy (error : PolicyError)
  | worker (error : WorkerProtocolError)
  | database (raised : Sql.Raised)
  | storage
  deriving DecidableEq

/-- What the code gets from its platform: digests, the etags of stored parts
and `JSON.parse`, which says what a text denotes. -/
structure InputRuntime where
  sha256 : Bytes → Hash.Digest
  etag : Bytes → String
  jsonParse : List Char → Option (Json JsString)

def refuse {α : Type} (status : Nat) (message : String) : Prog InputState InputThrow α :=
  fail (.policy ⟨status, message⟩)

/-! ## Authority -/

def areas : List String := ["desktop", "development", "gaming", "multimedia", "productivity", "system"]

def actorForGithubId (githubId fallbackId : String) (s : InputState) : Actor :=
  let memberships := (s.memberships.filter (·.1 = githubId)).map (·.2)
  let role : Role :=
    if memberships.contains "admin" then .admin
    else if memberships.contains "security" then .security
    else if memberships.isEmpty then .publicUser
    else .maintainer
  ⟨if githubId = "" then fallbackId else "github:" ++ githubId, role,
    if role = .admin ∨ role = .security then areas else memberships.filter areas.contains⟩

def checkHuman (actor : Option Actor) : Prog InputState InputThrow Actor :=
  ofExcept ((humanMaintainer actor "system").mapError .policy)

/-- A signed-in maintainer of the system area, as the teams stand now. -/
def inputAuthority (actor : Option Actor) : Prog InputState InputThrow Actor := do
  let human ← checkHuman actor
  let current ← read (actorForGithubId (String.ofList (human.id.toList.drop 7)) "user:unknown")
  checkHuman (some current)

/-! ## Objects -/

/-- `INSERT OR IGNORE INTO input_objects`. -/
def insertObject (row : InputObjectRow) : Sql.Statement InputState := fun s _ =>
  if s.inputObjects.any (fun r => r.sha256 = row.sha256 || r.objectKey = row.objectKey) ||
      row.sha256.length ≠ 64 || row.size = 0 || row.size > maxInputObject then .ok (s, 0)
  else .ok ({ s with inputObjects := s.inputObjects ++ [row] }, 1)

def inputObject (digest : String) : Prog InputState InputThrow InputObjectRow := do
  if Hash.isHexDigest digest.toList = false then refuse 400 "Invalid input checksum."
  else
    let found ← read fun s => s.inputObjects.find? (·.sha256 = digest)
    match found with
    | none => refuse 409 s!"Retained input is missing: {digest}"
    | some row => pure row

/-! ## Documents -/

/-- U+FEFF, which a `TextDecoder` takes off the start of a text. -/
def byteOrderMark : Char := '\uFEFF'

def withoutMark : List Char → List Char
  | [] => []
  | c :: cs => if c = byteOrderMark then cs else c :: cs

/-- `new TextDecoder('utf-8', { fatal: true }).decode`. -/
def decodeText (bytes : Bytes) : Option (List Char) :=
  if encode (decode bytes) = bytes then some (withoutMark (decode bytes)) else none

variable (rt : InputRuntime)

/-- `canonicalJson(JSON.parse(text)) === text`. -/
def isCanonical (text : List Char) : Bool := (rt.jsonParse text).map canonicalJson = some text

/-- The text that bytes are indexed by, if they are a document. -/
def documentText (bytes : Bytes) : Option (List Char) :=
  if bytes.length > maxDocument then none else (decodeText bytes).filter (isCanonical rt)

/-- `INSERT OR IGNORE INTO input_documents`; a missing object is no conflict to ignore. -/
def insertDocument (row : InputDocumentRow) : Sql.Statement InputState := fun s _ =>
  if s.inputDocuments.any (·.sha256 = row.sha256) || (encode row.canonicalJson.toList).length > maxDocument then .ok (s, 0)
  else if s.inputObjects.any (·.sha256 = row.sha256) then
    .ok ({ s with inputDocuments := s.inputDocuments ++ [row] }, 1)
  else .error ⟨"FOREIGN KEY constraint failed"⟩

def indexInputDocument (digest : String) (bytes : Bytes) : Prog InputState InputThrow Unit :=
  match documentText rt bytes with
  | none => pure ()
  | some text => do
    if (rt.sha256 bytes).hex ≠ digest then refuse 409 "Input document changed during retention."
    else
      let _ ← Sql.run [insertDocument ⟨digest, String.ofList text⟩] .database
      pure ()

/-! ## Whole bytes -/

def retainedKey (digest : String) : String := "private/inputs/retained/" ++ digest

def putObject (key : String) (bytes : Bytes) (s : InputState) : InputState :=
  { s with bucket := { s.bucket with objects := Function.update s.bucket.objects key (some bytes) } }

def retainInputBytes (actor : Actor) (bytes : Bytes) : Prog InputState InputThrow InputObject := do
  if bytes = [] ∨ bytes.length > maxDocument then refuse 400 "Retained input document exceeds size limit."
  else
    let ref : InputObject := ⟨(rt.sha256 bytes).hex, bytes.length⟩
    let _ ← modify (putObject (retainedKey ref.sha256) bytes)
    let now ← read (·.clock)
    let _ ← Sql.run [insertObject ⟨ref, retainedKey ref.sha256, actor.id, now⟩] .database
    let row ← inputObject ref.sha256
    if row.size ≠ ref.size then refuse 409 "Retained input size changed."
    else
      let _ ← indexInputDocument rt ref.sha256 bytes
      pure ref

/-! ## Uploads -/

/-- The upload of this name and digest that the actor started and may go on with. -/
def upload (actor : Actor) (digest uploadId : String) : Prog InputState InputThrow Upload := do
  let found ← read fun s => s.uploads.find? fun u => u.id = uploadId && u.sha256 = digest && u.createdBy = actor.id
  let now ← read (·.clock)
  match found with
  | none => refuse 409 "Input upload is unavailable or expired."
  | some row =>
    if row.status = .failed ∨ row.expiresAt ≤ now then refuse 409 "Input upload is unavailable or expired."
    else pure row

def parts (uploadId : String) (s : InputState) : List Part :=
  (s.parts.filter (·.uploadId = uploadId)).mergeSort fun p q => p.partNumber ≤ q.partNumber

def isOpen (u : Upload) : Bool := u.status = .active || u.status = .verifying

def updateUploads (p : Upload → Bool) (status : UploadStatus) : Sql.Statement InputState := fun s _ =>
  let (uploads, n) := Sql.update p (fun u => { u with status := status }) s.uploads
  .ok ({ s with uploads }, n)

def failExpired (digest createdBy : String) (now : Int) : Sql.Statement InputState :=
  updateUploads (fun u => u.sha256 = digest && u.createdBy = createdBy && u.expiresAt ≤ now && isOpen u) .failed

def insertUpload (row : Upload) : Sql.Statement InputState := fun s _ => do
  let (uploads, n) ← Sql.insert (fun u => u.id = row.id || u.objectKey = row.objectKey ||
    (u.sha256 = row.sha256 && u.createdBy = row.createdBy && isOpen u)) "UNIQUE constraint failed: input_uploads" row s.uploads
  .ok ({ s with uploads }, n)

/-- A batch, and whether it came back. -/
def commit (statements : List (Sql.Statement InputState)) : Prog InputState InputThrow (Except Sql.Raised (List Nat)) :=
  transact fun s =>
    match s.database with
    | .works => (.ok (Sql.batch statements s).1, (Sql.batch statements s).2)
    | .fails => (.ok (.error ⟨"D1_ERROR: no answer"⟩), s)
    | .loses => (.ok (.error ⟨"D1_ERROR: no answer"⟩), (Sql.batch statements s).2)

/-- A call to the bucket, which throws where it has no answer. -/
def callBucket {α : Type} (f : Bucket String → Option (Bucket String × α)) : Prog InputState InputThrow α :=
  transact fun s =>
    match f s.bucket with
    | some (bucket, a) => (.ok a, { s with bucket })
    | none => (.error .storage, s)

def uploadKey (uploadId digest : String) : String := "private/inputs/uploads/" ++ (uploadId ++ "/" ++ digest)

/-- The upload whose row was inserted; its parts in the bucket are aborted if it was not. -/
def insertedUpload (human : Actor) (ref : InputObject) (uploadId : String) (r2UploadId : Nat) :
    Except Sql.Raised (List Nat) → Prog InputState InputThrow Upload
  | .error cause => do
    let _ ← callBucket (Bucket.abort (uploadKey uploadId ref.sha256) r2UploadId)
    fail (.database cause)
  | .ok _ => upload human ref.sha256 uploadId

def createUpload (human : Actor) (ref : InputObject) (uploadId : String) : Prog InputState InputThrow Upload := do
  let r2UploadId ← callBucket (Bucket.create (uploadKey uploadId ref.sha256))
  let now ← read (·.clock)
  let inserted ← commit
    [insertUpload ⟨⟨ref, uploadId, uploadKey uploadId ref.sha256, r2UploadId, human.id, now, now + 86400⟩, .active⟩]
  insertedUpload human ref uploadId r2UploadId inserted

/-- The actor's open upload of the digest, or a new one. -/
def openUpload (human : Actor) (ref : InputObject) (uploadId : String) : Prog InputState InputThrow Upload := do
  let found ← read fun s => s.uploads.find? fun u => u.sha256 = ref.sha256 && u.createdBy = human.id && isOpen u
  match found with
  | some row => pure row
  | none => createUpload human ref uploadId

inductive StartResult where
  | completed (ref : InputObject)
  | started (uploadId : String) (partSize : Nat) (status : UploadStatus) (parts : List Part)

def startInputUpload (actor : Option Actor) (ref : InputObject) (uploadId : String) :
    Prog InputState InputThrow StartResult := do
  let human ← inputAuthority actor
  if Hash.isHexDigest ref.sha256.toList = false ∨ ref.size = 0 ∨ ref.size > maxInputObject then
    refuse 400 "Invalid input object size or checksum."
  else
    let completed ← read fun s => s.inputObjects.find? (·.sha256 = ref.sha256)
    match completed with
    | some row =>
      if row.size ≠ ref.size then refuse 409 "Retained checksum already has a different size."
      else pure (.completed ref)
    | none =>
      let now ← read (·.clock)
      let _ ← Sql.run [failExpired ref.sha256 human.id now] .database
      let row ← openUpload human ref uploadId
      if row.size ≠ ref.size then refuse 409 "Upload checksum already has a different size."
      else
        let saved ← read (parts row.id)
        pure (.started row.id uploadPartSize row.status saved)

/-- How many parts a size takes. -/
def partCount (size : Nat) : Nat := (size + uploadPartSize - 1) / uploadPartSize

/-- The size of a part, the last one being what is left. -/
def partSize (size partNumber : Nat) : Nat :=
  if partNumber = partCount size then size - (partNumber - 1) * uploadPartSize else uploadPartSize

def insertPart (part : Part) (now : Int) : Sql.Statement InputState := fun s _ =>
  if s.uploads.any (fun u => u.id = part.uploadId && u.status = .active && u.expiresAt > now) &&
      !s.parts.any (fun p => p.uploadId = part.uploadId && p.partNumber = part.partNumber) then
    .ok ({ s with parts := s.parts ++ [part] }, 1)
  else .ok (s, 0)

def findPart (uploadId : String) (partNumber : Nat) (s : InputState) : Option Part :=
  s.parts.find? fun p => p.uploadId = uploadId && p.partNumber = partNumber

def writeInputPart (actor : Option Actor) (digest uploadId : String) (partNumber : Nat) (bytes : Bytes) :
    Prog InputState InputThrow Part := do
  let human ← inputAuthority actor
  let row ← upload human digest uploadId
  if row.status ≠ .active then refuse 409 "Input upload no longer accepts parts."
  else if partNumber < 1 ∨ partNumber > partCount row.size then refuse 400 "Invalid input upload part number."
  else if bytes.length ≠ partSize row.size partNumber then
    refuse 409 s!"Input part size is {bytes.length} bytes; expected {partSize row.size partNumber}."
  else
    let hash := (rt.sha256 bytes).hex
    let existing ← read (findPart uploadId partNumber)
    match existing with
    | some existing =>
      if existing.sha256 ≠ hash ∨ existing.size ≠ bytes.length then
        refuse 409 "Input part already contains different bytes."
      else pure existing
    | none =>
      let part ← callBucket (Bucket.uploadPart row.objectKey row.r2UploadId ⟨partNumber, bytes, rt.etag bytes⟩)
      if part.number ≠ partNumber ∨ part.etag = "" then refuse 503 "Input storage returned invalid part."
      else
        let now ← read (·.clock)
        let _ ← Sql.run [insertPart ⟨uploadId, partNumber, bytes.length, hash, part.etag⟩ now] .database
        let saved ← read (findPart uploadId partNumber)
        match saved with
        | none => refuse 409 "Input upload changed during part transfer."
        | some saved =>
          if saved.sha256 ≠ hash ∨ saved.size ≠ bytes.length then refuse 409 "Input upload changed during part transfer."
          else pure saved

/-! ## Completing -/

/-- The parts are numbered from one and have the sizes that the upload's takes. -/
def hasAllParts (size : Nat) (saved : List Part) : Bool :=
  saved.map (·.partNumber) = List.range' 1 (partCount size) && saved.all fun p => p.size = partSize size p.partNumber

/-- Puts the parts together, unless an earlier request has, as request `me`. -/
def assemble (me : Nat) (row : Upload) (saved : List Part) : Prog InputState InputThrow Unit := do
  let stored ← read fun s => (s.bucket.objects row.objectKey).isSome
  if stored = true then pure ()
  else
    let _ ← callBucket (Bucket.complete me row.objectKey row.r2UploadId (saved.map fun p => (p.partNumber, p.etag)))
    pure ()

/-- The digest and size of a stored object. -/
def hashObject (key : String) : Prog InputState InputThrow InputObject := do
  let object ← read fun s => s.bucket.objects key
  match object with
  | none => fail (.worker ⟨409, "Completed upload is missing"⟩)
  | some bytes =>
    if bytes.length > maxInputObject then fail (.worker ⟨409, "Completed upload is too large"⟩)
    else pure ⟨(rt.sha256 bytes).hex, bytes.length⟩

/-- Registers an upload that is being verified and has not expired, for an actor in a team that may. -/
def registerInput (row : Upload) (actorId : String) (now : Int) : Sql.Statement InputState := fun s n =>
  match s.uploads.find? fun u => u.id = row.id && u.status = .verifying && u.expiresAt > now with
  | none => .ok (s, 0)
  | some u =>
    if s.memberships.any fun m => "github:" ++ m.1 = actorId && ["system", "security", "admin"].contains m.2 then
      insertObject ⟨u.toInputObject, u.objectKey, u.createdBy, now⟩ s n
    else .ok (s, 0)

def completeUpload (row : Upload) (digest : String) : Sql.Statement InputState := fun s n =>
  updateUploads (fun u => u.id = row.id && u.status = .verifying &&
    s.inputObjects.any fun r => r.sha256 = digest && r.size = row.size) .complete s n

/-- Records an upload whose object was hashed. -/
def recordInput (actor : Option Actor) (human : Actor) (row : Upload) (digest : String) :
    Prog InputState InputThrow InputObject := do
  let _ ← inputAuthority actor
  let now ← read (·.clock)
  let _ ← Sql.run [registerInput row human.id now, completeUpload row digest] .database
  let registered ← inputObject digest
  if registered.size ≠ row.size then refuse 409 "Input verification was fenced."
  else if row.size ≤ maxDocument then
    let object ← read fun s => s.bucket.objects row.objectKey
    match object with
    | none => refuse 409 "Retained input object is unavailable."
    | some bytes =>
      if bytes.length ≠ row.size then refuse 409 "Retained input object is unavailable."
      else
        let _ ← indexInputDocument rt digest bytes
        pure row.toInputObject
  else pure row.toInputObject

def completeInputUpload (me : Nat) (actor : Option Actor) (digest uploadId : String) :
    Prog InputState InputThrow InputObject := do
  let human ← inputAuthority actor
  let row ← upload human digest uploadId
  if row.status = .complete then
    let _ ← inputObject digest
    pure row.toInputObject
  else
    let saved ← read (parts row.id)
    if hasAllParts row.size saved = false then refuse 409 "Input upload is missing parts."
    else
      let _ ← Sql.run [updateUploads (fun u => u.id = row.id && u.status = .active) .verifying] .database
      let _ ← assemble me row saved
      let actual ← hashObject rt row.objectKey
      if actual ≠ row.toInputObject then
        let _ ← Sql.run [updateUploads (fun u => u.id = row.id && u.status = .verifying) .failed] .database
        refuse 409 "Uploaded input bytes differ from declared checksum or size."
      else recordInput rt actor human row digest

end Omapkg.Server.Inputs
