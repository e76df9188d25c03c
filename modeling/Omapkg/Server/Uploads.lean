import Omapkg.Lib.Multipart
import Omapkg.Lib.Sql
import Omapkg.Server.FactoryRuns
import Omapkg.Server.WorkerProtocol
/-!
# Worker uploads

`src/src/lib/server/worker-uploads.ts`: a build's artifact is uploaded in
parts, put together, and recorded. The rows are in the database and the bytes in
the bucket, so a request that fails between the two takes back what it can.
-/

namespace Omapkg.Server.Uploads

open Utf Prog Multipart

def uploadPartSize : Nat := 8 * 1024 * 1024

def maxUploadSize : Nat := 4 * 1024 * 1024 * 1024

def maxUploadParts : Nat := maxUploadSize / uploadPartSize

/-! ## Rows -/

inductive Surface where
  | binary | recipe
  deriving DecidableEq, Repr

/-- What uploads read of `builds`, and of its revision's surface. The output
contract is the list of its packages' file names. -/
structure UploadBuild where
  id : String
  workerId : Option String
  leaseToken : Option String
  leaseExpiresAt : Option Int
  attempt : Nat
  status : JobStatus
  surface : Surface
  artifactKey : Option String
  artifactSha256 : Option String
  artifactSize : Option Nat
  artifactFilename : Option String
  outputContract : Option (List String)

/-- A row of `build_artifacts`. -/
structure BuildArtifact where
  buildId : String
  attempt : Nat
  filename : String
  artifactKey : String
  sha256 : String
  size : Nat
  createdAt : Int

inductive UploadStatus where
  | active | completed | aborted | failed
  deriving DecidableEq, Repr

/-- The columns of `worker_uploads` that no statement changes. -/
structure UploadDeclaration where
  id : String
  buildId : String
  workerId : String
  attempt : Nat
  leaseToken : String
  filename : String
  objectKey : String
  r2UploadId : Nat
  expectedSize : Nat
  expectedSha256 : String
  createdAt : Int
  deriving DecidableEq

structure UploadRow extends UploadDeclaration where
  status : UploadStatus
  actualSize : Option Nat
  actualSha256 : Option String
  completedAt : Option Int

/-- A row of `worker_upload_parts`. -/
structure UploadPartRow where
  uploadId : String
  partNumber : Nat
  sha256 : String
  size : Nat
  etag : String
  createdAt : Int

/-- How the next call to a store ends: it answers, fails before it did
anything, or does it and its answer is lost. -/
inductive Outcome where
  | works | fails | loses
  deriving DecidableEq, Repr

/-- The tables, the bucket of uploads and the clock. `admits` is what the other
tables say of a build that a worker has leased: its revision is the latest, is
approved, and the worker is active. The last field is no column: it counts the
deletes that took an object another request had put together. -/
structure UploadState where
  clock : Int
  builds : List UploadBuild
  artifacts : List BuildArtifact
  uploads : List UploadRow
  parts : List UploadPartRow
  bucket : Bucket String
  admits : String → String → Bool
  storage : Outcome
  database : Outcome
  removed : Nat

/-- A `WorkerProtocolError`. -/
abbrev UploadThrow := WorkerProtocolError

def databaseFailure : UploadThrow := ⟨500, "Upload storage failure"⟩

def storageFailure : UploadThrow := ⟨503, "Upload storage unavailable"⟩

structure ArtifactReference where
  key : String
  sha256 : String
  size : Nat
  filename : String

structure UploadStart where
  leaseToken : String
  filename : String
  size : Nat
  sha256 : String

inductive UploadStartResult where
  | started (uploadId filename : String) (size : Nat) (sha256 : String) (parts : List UploadPartRow)
  | completed (artifact : ArtifactReference)

/-! ## Input -/

def requireLeaseToken (token : String) : Except UploadThrow Unit :=
  if token.toList.length = 0 ∨ token.toList.length > 128 ∨ token.toList.contains '\x00' then
    .error ⟨400, "Invalid leaseToken"⟩
  else .ok ()

/-- `^[A-Za-z0-9][A-Za-z0-9@._+%~:-]{0,220}\.pkg\.tar\.zst$`. -/
def isArtifactFilename (value : String) : Bool :=
  let cs := value.toList
  let stem := cs.take (cs.length - 12)
  ".pkg.tar.zst".toList.isSuffixOf cs && stem.length ≤ 221 && stem.head?.any isAlnum &&
    stem.all fun c => isAlnum c || ['@', '.', '_', '+', '%', '~', ':', '-'].contains c

def checkUploadStart (input : UploadStart) : Except UploadThrow Unit := do
  requireLeaseToken input.leaseToken
  if isArtifactFilename input.filename = false then .error ⟨400, "Invalid artifact filename"⟩
  else if input.size = 0 ∨ input.size > maxUploadSize then .error ⟨400, "Invalid upload size"⟩
  else if Hash.isHexDigest input.sha256.toList = false then .error ⟨400, "Invalid upload checksum"⟩
  else .ok ()

/-! ## Leases and rows -/

def requireLease (buildId workerId token : String) : Prog UploadState UploadThrow UploadBuild := do
  let found ← read fun s => s.builds.find? fun b => b.id = buildId && b.workerId = some workerId && s.admits buildId workerId
  match found with
  | none => fail ⟨409, "Worker lease is fenced"⟩
  | some build =>
    if build.leaseToken ≠ some token then fail ⟨409, "Worker lease is fenced"⟩
    else
      let now ← read (·.clock)
      if build.status ≠ .leased ∨ build.leaseExpiresAt.all (· ≤ now) then fail ⟨409, "Worker lease is expired"⟩
      else pure build

def requireWorkerLease (buildId workerId token : String) : Prog UploadState UploadThrow UploadBuild := do
  let _ ← ofExcept (requireLeaseToken token)
  requireLease buildId workerId token

/-- The upload with what its build says at the time. -/
def findUpload (p : UploadRow → Bool) (s : UploadState) : Option (UploadRow × UploadBuild) :=
  (s.uploads.find? p).bind fun u => (s.builds.find? (·.id = u.buildId)).map fun b => (u, b)

def getUpload (buildId uploadId workerId : String) (s : UploadState) : Option (UploadRow × UploadBuild) :=
  findUpload (fun u => u.id = uploadId && u.buildId = buildId && u.workerId = workerId) s

def getUploadForBuild (buildId workerId : String) (s : UploadState) : Option (UploadRow × UploadBuild) :=
  findUpload (fun u => u.buildId = buildId && u.workerId = workerId && u.status = .active) s

def getAnyActiveUploadForBuild (buildId : String) (s : UploadState) : Option (UploadRow × UploadBuild) :=
  findUpload (fun u => u.buildId = buildId && u.status = .active) s

def getParts (uploadId : String) (s : UploadState) : List UploadPartRow :=
  (s.parts.filter (·.uploadId = uploadId)).mergeSort fun p q => p.partNumber ≤ q.partNumber

def assertActiveUpload (row : UploadRow) (rowBuild : UploadBuild) (workerId : String) (build : UploadBuild) (token : String) :
    Except UploadThrow Unit :=
  if row.status ≠ .active ∨ row.leaseToken ≠ token ∨ row.attempt ≠ build.attempt ∨ row.workerId ≠ workerId ∨
      rowBuild.status ≠ .leased then
    .error ⟨409, "Upload lease is fenced"⟩
  else if rowBuild.surface ≠ .binary then .error ⟨409, "Recipe builds cannot upload artifacts"⟩
  else if rowBuild.artifactKey.isSome then .error ⟨409, "Build already has an artifact"⟩
  else .ok ()

def buildArtifacts (build : UploadBuild) (s : UploadState) : List BuildArtifact :=
  s.artifacts.filter fun a => a.buildId = build.id && a.attempt = build.attempt

/-- The artifact that a build without an output contract has. -/
def completedArtifact (build : UploadBuild) : Except UploadThrow (Option ArtifactReference) :=
  match build.artifactKey with
  | none => .ok none
  | some key =>
    match build.artifactSha256, build.artifactSize, build.artifactFilename with
    | some sha256, some size, some filename => .ok (some ⟨key, sha256, size, filename⟩)
    | _, _, _ => .error ⟨500, "Completed artifact metadata is incomplete"⟩

def recordedArtifact (build : UploadBuild) (filename : String) (s : UploadState) : Except UploadThrow (Option ArtifactReference) :=
  match build.outputContract with
  | some _ => .ok (((buildArtifacts build s).find? (·.filename = filename)).map fun a => ⟨a.artifactKey, a.sha256, a.size, a.filename⟩)
  | none => completedArtifact build

def uploadArtifactReference (row : UploadRow) : Except UploadThrow ArtifactReference :=
  match row.actualSha256, row.actualSize with
  | some sha256, some size => .ok ⟨row.objectKey, sha256, size, row.filename⟩
  | _, _ => .error ⟨500, "Completed upload metadata is incomplete"⟩

/-! ## Calls to the stores -/

/-- A call to the bucket: what it answers, and whether it did anything. -/
def bucketCall {α : Type} (f : Bucket String → Option (Bucket String × α)) (s : UploadState) :
    Except UploadThrow (Option α × Bool) × UploadState :=
  match s.storage, f s.bucket with
  | .works, some (bucket, a) => (.ok (some a, true), { s with bucket })
  | .loses, some (bucket, _) => (.ok (none, true), { s with bucket })
  | _, _ => (.ok (none, false), s)

def callBucket {α : Type} (f : Bucket String → Option (Bucket String × α)) :
    Prog UploadState UploadThrow (Option α × Bool) := transact (bucketCall f)

/-- `bucket.delete`, whose failure is ignored. A delete is counted if it takes
an object that is not the request's `own`. -/
def deleteObject (own : Bool) (key : String) : Prog UploadState UploadThrow Unit :=
  modify fun s =>
    if s.storage = .fails then s
    else { s with bucket := s.bucket.delete key
                  removed := if own = false ∧ (s.bucket.objects key).isSome then s.removed + 1 else s.removed }

/-- A batch, and whether it came back. -/
def commit (statements : List (Sql.Statement UploadState)) : Prog UploadState UploadThrow (Except Sql.Raised (List Nat)) :=
  transact fun s =>
    match s.database with
    | .works => (.ok (Sql.batch statements s).1, (Sql.batch statements s).2)
    | .fails => (.ok (.error ⟨"D1_ERROR: no answer"⟩), s)
    | .loses => (.ok (.error ⟨"D1_ERROR: no answer"⟩), (Sql.batch statements s).2)

def updateUploads (p : Nat → UploadRow → Bool) (f : UploadRow → UploadRow) : Sql.Statement UploadState := fun s n =>
  .ok ({ s with uploads := (Sql.update (p n) f s.uploads).1 }, (Sql.update (p n) f s.uploads).2)

def failUpload (row : UploadRow) (actualSize : Option Nat) (actualSha256 : Option String) (timestamp : Int) :
    Sql.Statement UploadState :=
  updateUploads (fun _ u => u.id = row.id && u.status = .active)
    fun u => { u with status := .failed, actualSize := actualSize, actualSha256 := actualSha256, completedAt := some timestamp }

def markFailed (row : UploadRow) (actualSize : Option Nat) (actualSha256 : Option String) :
    Prog UploadState UploadThrow Unit := do
  let timestamp ← read (·.clock)
  let result ← commit [failUpload row actualSize actualSha256 timestamp]
  match result with
  | .ok _ => pure ()
  | .error _ => fail databaseFailure

/-- Aborts the upload's parts, or else deletes its object. -/
def abortR2 (own : Bool) (row : UploadRow) : Prog UploadState UploadThrow Unit := do
  let aborted ← callBucket (Bucket.abort row.objectKey row.r2UploadId)
  match aborted.1 with
  | some _ => pure ()
  | none => deleteObject own row.objectKey

/-- Takes back what an upload stored, and ends it. -/
def giveUp {α : Type} (own : Bool) (row : UploadRow) (cause : UploadThrow) : Prog UploadState UploadThrow α := do
  let _ ← abortR2 own row
  let _ ← markFailed row none none
  fail cause

/-! ## Starting -/

def insertUpload (row : UploadRow) (timestamp : Int) : Sql.Statement UploadState := fun s _ =>
  if s.builds.any (fun b => b.id = row.buildId && b.workerId = some row.workerId && b.leaseToken = some row.leaseToken &&
      b.attempt = row.attempt && b.status = .leased && b.leaseExpiresAt.any (· > timestamp) && b.artifactKey.isNone &&
      b.surface = .binary && s.admits b.id row.workerId) then do
    let (uploads, n) ← Sql.insert (fun u => u.id = row.id || u.objectKey = row.objectKey ||
      (u.buildId = row.buildId && u.status = .active)) "UNIQUE constraint failed: worker_uploads" row s.uploads
    .ok ({ s with uploads }, n)
  else .ok (s, 0)

def startedUpload (row : UploadRow) (s : UploadState) : UploadStartResult :=
  .started row.id row.filename row.expectedSize row.expectedSha256 (getParts row.id s)

/-- Whether an upload is the one the input asks for. -/
def sameUpload (row : UploadRow) (workerId : String) (build : UploadBuild) (input : UploadStart) : Bool :=
  row.workerId = workerId && row.status = .active && row.attempt = build.attempt && row.leaseToken = input.leaseToken &&
    row.filename = input.filename && row.expectedSize = input.size && row.expectedSha256 = input.sha256

def objectKey (build : UploadBuild) (uploadId : String) (input : UploadStart) : String :=
  s!"private/builds/{build.id}/attempt-{build.attempt}/upload-{uploadId}/{input.sha256}-{input.filename}"

/-- Creates the upload in the bucket and its row. -/
def createUpload (workerId : String) (build : UploadBuild) (uploadId : String) (input : UploadStart) :
    Prog UploadState UploadThrow UploadStartResult := do
  let created ← callBucket (Bucket.create (objectKey build uploadId input))
  match created.1 with
  | none => fail storageFailure
  | some r2UploadId =>
    let timestamp ← read (·.clock)
    let row : UploadRow := ⟨⟨uploadId, build.id, workerId, build.attempt, input.leaseToken, input.filename,
      objectKey build uploadId input, r2UploadId, input.size, input.sha256, timestamp⟩, .active, none, none, none⟩
    let inserted ← commit [insertUpload row timestamp]
    match inserted with
    | .ok _ => pure (.started uploadId input.filename input.size input.sha256 [])
    | .error raised =>
      let _ ← callBucket (Bucket.abort row.objectKey r2UploadId)
      if raised.message = "UNIQUE constraint failed: worker_uploads" then
        let found ← read (getUploadForBuild build.id workerId)
        match found with
        | none => fail ⟨409, "Build already has an upload"⟩
        | some (existing, _) =>
          if sameUpload existing workerId build input then read (startedUpload existing)
          else fail ⟨409, "Build already has an upload"⟩
      else fail databaseFailure

def startMultipartUpload (workerId buildId uploadId : String) (input : UploadStart) :
    Prog UploadState UploadThrow UploadStartResult := do
  let _ ← ofExcept (checkUploadStart input)
  let build ← requireWorkerLease buildId workerId input.leaseToken
  if build.surface ≠ .binary then fail ⟨409, "Build cannot accept an artifact upload"⟩
  else if build.outputContract.any (fun filenames => !filenames.contains input.filename) then
    fail ⟨409, "Artifact is outside expected output set"⟩
  else
    let recorded ← read (recordedArtifact build input.filename)
    let completed ← ofExcept recorded
    match completed with
    | some artifact =>
      if artifact.filename ≠ input.filename ∨ artifact.sha256 ≠ input.sha256 ∨ artifact.size ≠ input.size then
        fail ⟨409, "Build already has a different artifact"⟩
      else pure (.completed artifact)
    | none =>
      let active ← read (getAnyActiveUploadForBuild buildId)
      match active with
      | none => createUpload workerId build uploadId input
      | some (row, _) =>
        if sameUpload row workerId build input then read (startedUpload row)
        else if row.attempt = build.attempt ∧ row.workerId = workerId ∧ row.leaseToken = input.leaseToken then
          fail ⟨409, "Build already has a different upload"⟩
        else
          let _ ← abortR2 false row
          let _ ← markFailed row none none
          createUpload workerId build uploadId input

/-! ## Parts -/

/-- The size of a part, the last one being what is left. -/
def partSize (expectedSize partNumber : Nat) : Except UploadThrow Nat :=
  let totalParts := (expectedSize + uploadPartSize - 1) / uploadPartSize
  if partNumber < 1 ∨ partNumber > totalParts ∨ partNumber > maxUploadParts then .error ⟨400, "Invalid upload part number"⟩
  else .ok (if partNumber = totalParts then expectedSize - (partNumber - 1) * uploadPartSize else uploadPartSize)

section
variable (sha256 : Bytes → Hash.Digest) (etag : Bytes → String)

def insertPart (row : UploadRow) (workerId token : String) (build : UploadBuild) (part : UploadPartRow) :
    Sql.Statement UploadState := fun s _ =>
  if s.uploads.any (fun u => u.id = row.id && u.buildId = build.id && u.workerId = workerId && u.status = .active &&
        u.attempt = build.attempt && u.leaseToken = token) &&
      s.builds.any (fun b => b.id = build.id && b.status = .leased && b.workerId = some workerId && b.leaseToken = some token &&
        b.leaseExpiresAt.any (· > part.createdAt) && s.admits b.id workerId) then
    -- `INSERT OR IGNORE`
    if s.parts.any (fun p => p.uploadId = part.uploadId && p.partNumber = part.partNumber) then .ok (s, 0)
    else .ok ({ s with parts := s.parts ++ [part] }, 1)
  else .ok (s, 0)

def uploadMultipartPart (workerId buildId uploadId : String) (partNumber : Nat) (token : String) (body : Bytes) :
    Prog UploadState UploadThrow UploadPartRow := do
  let build ← requireWorkerLease buildId workerId token
  let found ← read (getUpload buildId uploadId workerId)
  match found with
  | none => fail ⟨404, "Upload not found"⟩
  | some (row, rowBuild) =>
    let _ ← ofExcept (assertActiveUpload row rowBuild workerId build token)
    let expected ← ofExcept (partSize row.expectedSize partNumber)
    if body.length ≠ expected then fail ⟨400, "Upload part has an invalid size"⟩
    else
      let digest := (sha256 body).hex
      let existing ← read fun s => (getParts uploadId s).find? (·.partNumber = partNumber)
      match existing with
      | some part =>
        if part.sha256 ≠ digest ∨ part.size ≠ body.length then fail ⟨409, "Upload part already contains different bytes"⟩
        else pure part
      | none =>
        let uploaded ← callBucket (Bucket.uploadPart row.objectKey row.r2UploadId ⟨partNumber, body, etag body⟩)
        match uploaded.1 with
        | none => fail storageFailure
        | some part =>
          if part.etag = "" then fail ⟨503, "Upload storage returned an invalid part"⟩
          else
            let timestamp ← read (·.clock)
            let inserted ← commit
              [insertPart row workerId token build ⟨uploadId, partNumber, digest, body.length, part.etag, timestamp⟩]
            match inserted with
            | .error _ => giveUp false row databaseFailure
            | .ok _ =>
              let saved ← read fun s => (getParts uploadId s).find? (·.partNumber = partNumber)
              match saved with
              | none => fail ⟨409, "Upload lease is fenced"⟩
              | some saved =>
                if saved.sha256 ≠ digest ∨ saved.size ≠ body.length then
                  giveUp false row ⟨409, "Upload part already contains different bytes"⟩
                else pure saved

/-! ## Completing -/

/-- The digest and size of a stored object. -/
def hashObject (key : String) : Prog UploadState UploadThrow (Except UploadThrow (String × Nat)) :=
  read fun s =>
    if s.storage ≠ .works then .error storageFailure
    else
      match s.bucket.objects key with
      | none => .error ⟨409, "Completed upload is missing"⟩
      | some bytes =>
        if bytes.length > maxUploadSize then .error ⟨409, "Completed upload is too large"⟩
        else .ok ((sha256 bytes).hex, bytes.length)

/-- Records the artifact of a build that is still leased, in `builds` or, if
the build has an output contract, in `build_artifacts`. -/
def recordArtifact (row : UploadRow) (workerId token : String) (build : UploadBuild) (actual : String × Nat) (timestamp : Int) :
    Sql.Statement UploadState := fun s _ =>
  let leased (b : UploadBuild) : Bool := b.id = build.id && b.workerId = some workerId && b.leaseToken = some token &&
    b.status = .leased && b.leaseExpiresAt.any (· > timestamp) && s.admits b.id workerId
  match build.outputContract with
  | some _ =>
    if s.builds.any (fun b => leased b && b.attempt = build.attempt && b.outputContract = build.outputContract) &&
        s.artifacts.all (fun a => !(a.buildId = build.id && a.attempt = build.attempt && a.filename = row.filename)) then
      .ok ({ s with artifacts := s.artifacts ++
        [⟨build.id, build.attempt, row.filename, row.objectKey, actual.1, actual.2, timestamp⟩] }, 1)
    else .ok (s, 0)
  | none =>
    let (builds, n) := Sql.update
      (fun b => leased b && b.artifactKey.isNone && s.uploads.any fun u => u.id = row.id && u.status = .active && u.leaseToken = token)
      (fun b => { b with artifactKey := some row.objectKey, artifactSha256 := some actual.1, artifactSize := some actual.2,
                         artifactFilename := some row.filename }) s.builds
    .ok ({ s with builds }, n)

def completeUpload (row : UploadRow) (actual : String × Nat) (timestamp : Int) : Sql.Statement UploadState :=
  updateUploads (fun n u => u.id = row.id && u.status = .active && n = 1)
    fun u => { u with status := .completed, actualSha256 := some actual.1, actualSize := some actual.2, completedAt := some timestamp }

/-- Records an object that was put together and hashed. -/
def recordUpload (row : UploadRow) (workerId token : String) (build : UploadBuild) (actual : String × Nat) :
    Prog UploadState UploadThrow ArtifactReference := do
  let timestamp ← read (·.clock)
  let recorded ← commit
    [recordArtifact row workerId token build actual timestamp, completeUpload row actual timestamp]
  match recorded with
  | .error _ => do
    -- the batch may have come through, so the object is kept
    let _ ← markFailed row none none
    fail databaseFailure
  | .ok _ =>
    let completed ← read (getUpload row.buildId row.id workerId)
    match completed with
    | none => do
      let _ ← markFailed row none none
      fail ⟨409, "Upload lease is fenced"⟩
    | some (saved, _) =>
      if saved.status ≠ .completed then
        let _ ← markFailed row none none
        fail ⟨409, "Upload lease is fenced"⟩
      else ofExcept (uploadArtifactReference saved)

/-- Puts the parts together, as request `me`, and checks what that made. -/
def assembleUpload (me : Nat) (row : UploadRow) (workerId token : String) (build : UploadBuild) (parts : List UploadPartRow) :
    Prog UploadState UploadThrow ArtifactReference := do
  let assembled ← callBucket (Bucket.complete me row.objectKey row.r2UploadId (parts.map fun p => (p.partNumber, p.etag)))
  match assembled.1 with
  | none => giveUp assembled.2 row storageFailure
  | some _ =>
    let hashed ← hashObject sha256 row.objectKey
    match hashed with
    | .error cause =>
      let _ ← deleteObject true row.objectKey
      let _ ← markFailed row none none
      fail cause
    | .ok actual =>
      if actual.1 ≠ row.expectedSha256 ∨ actual.2 ≠ row.expectedSize then
        let _ ← deleteObject true row.objectKey
        let _ ← markFailed row (some actual.2) (some actual.1)
        fail ⟨409, "Uploaded bytes do not match declaration"⟩
      else recordUpload row workerId token build actual

def contiguous (parts : List UploadPartRow) (totalParts : Nat) : Bool :=
  parts.map (·.partNumber) = List.range' 1 totalParts

/-- Every part has the size that its number asks for. -/
def partSizes (row : UploadRow) (parts : List UploadPartRow) : Bool :=
  parts.all fun p =>
    match partSize row.expectedSize p.partNumber with
    | .ok size => p.size = size
    | .error _ => false

def completeMultipartUpload (me : Nat) (workerId buildId uploadId token : String) :
    Prog UploadState UploadThrow ArtifactReference := do
  let _ ← ofExcept (requireLeaseToken token)
  let found ← read (getUpload buildId uploadId workerId)
  match found with
  | none => fail ⟨409, "Upload lease is fenced"⟩
  | some (row, rowBuild) =>
    if row.leaseToken ≠ token then fail ⟨409, "Upload lease is fenced"⟩
    else
      let build ← requireWorkerLease buildId workerId token
      if row.attempt ≠ build.attempt then fail ⟨409, "Upload lease is fenced"⟩
      else if row.status = .completed then ofExcept (uploadArtifactReference row)
      else if row.status ≠ .active then fail ⟨409, "Upload is no longer active"⟩
      else
        let _ ← ofExcept (assertActiveUpload row rowBuild workerId build token)
        let parts ← read (getParts uploadId)
        if contiguous parts ((row.expectedSize + uploadPartSize - 1) / uploadPartSize) = false then
          giveUp false row ⟨409, "Upload is missing parts"⟩
        else if partSizes row parts = false then giveUp false row ⟨409, "Upload part sizes do not match declaration"⟩
        else assembleUpload sha256 me row workerId token build parts

end

/-! ## Aborting -/

def abortUpload (uploadId token : String) (timestamp : Int) : Sql.Statement UploadState :=
  updateUploads (fun _ u => u.id = uploadId && u.status = .active && u.leaseToken = token)
    fun u => { u with status := .aborted, completedAt := some timestamp }

def abortMultipartUpload (workerId buildId uploadId token : String) : Prog UploadState UploadThrow Unit := do
  let build ← requireWorkerLease buildId workerId token
  let found ← read (getUpload buildId uploadId workerId)
  match found with
  | none => fail ⟨404, "Upload not found"⟩
  | some (row, rowBuild) =>
    let _ ← ofExcept (assertActiveUpload row rowBuild workerId build token)
    let aborted ← callBucket (Bucket.abort row.objectKey row.r2UploadId)
    match aborted.1 with
    | none => fail storageFailure
    | some _ =>
      let timestamp ← read (·.clock)
      let result ← commit [abortUpload uploadId token timestamp]
      match result with
      | .ok _ => pure ()
      | .error _ => fail databaseFailure

end Omapkg.Server.Uploads
