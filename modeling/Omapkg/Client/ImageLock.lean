import Omapkg.Client.ConfigOrder
import Omapkg.Client.Discover
/-!
# The image lock

`writeImageLock` of `src/omarchy/manifest-client/image_lock.go`: the documents and
databases of a transaction as files of one directory, and a lock that refers to them
by path and digest and lists the packages for one architecture.
-/

namespace Omapkg.Client

open Utf Json Fallible

/-! ## Types -/

structure ImageLockRef where
  path : String
  sha256 : String
  signature : String
  signatureSha256 : String
  signatureUrl : String
  deriving DecidableEq

/-- A package; the last component of its URL is kept byte by byte. -/
structure ImageLockPackage where
  releaseId : String
  name : String
  version : String
  architecture : String
  repository : String
  filename : List Char
  url : String
  signatureUrl : String
  sha256 : String
  signatureSha256 : String
  install : Bool
  deriving DecidableEq

structure ImageLockRepository where
  name : String
  architecture : String
  path : String
  sha256 : String
  signature : String
  signatureSha256 : String
  packageBaseUrl : String
  deriving DecidableEq

structure ImageLock where
  schemaVersion : Nat
  authority : String
  transactionSha256 : String
  transaction : ImageLockRef
  systemManifest : ImageLockRef
  oprManifest : ImageLockRef
  repositories : List ImageLockRepository
  packageChunks : List ImageLockRef
  packages : List ImageLockPackage
  packageCount : Nat
  sourcePackageCount : Nat
  packageSetSha256 : String
  architecture : String
  systemVersion : String
  oprGeneration : String
  sourceDateEpoch : Int
  deriving DecidableEq

/-! ## Packages -/

def packageText (item : Object) (key : String) : Except GoError String :=
  if stringAt item key = "" then .error (.errorf "package is missing %s" [key]) else .ok (stringAt item key)

/-- `filepath.Base`. -/
def filepathBase (path : List Char) : List Char :=
  if path = [] then ['.']
  else
    let trimmed := (path.reverse.dropWhile (· = '/')).reverse
    if trimmed = [] then ['/'] else (trimmed.reverse.takeWhile (· ≠ '/')).reverse

/-- The component two after the first `releases` that has as many after it. -/
def releasesRepository : List (List Char) → List Char
  | [] => "omapkg".toList
  | part :: rest =>
    match rest with
    | _ :: repository :: _ => if part = "releases".toList then repository else releasesRepository rest
    | _ => releasesRepository rest

/-- `strings.Trim` of slashes. -/
def trimSlashes (path : List Char) : List Char := ((path.dropWhile (· = '/')).reverse.dropWhile (· = '/')).reverse

def packageRepositoryError (found : Nat) : GoError :=
  .errorf "package URL does not belong to exactly one selected repository (matches=%d)" [toString found]

section
variable (literal : List Char → Option (List Char))

def imagePackage (item : Object) : Except GoError ImageLockPackage := do
  let release ← packageText item "releaseId"
  let name ← packageText item "name"
  let version ← packageText item "version"
  let architecture ← packageText item "architecture"
  if architecture ≠ "x86_64" ∧ architecture ≠ "aarch64" ∧ architecture ≠ "any" then
    .error (.new "package architecture is invalid")
  else
    let url ← packageText item "artifactUrl"
    let signatureUrl ← packageText item "artifactSignatureUrl"
    let digest ← packageText item "artifactSha256"
    let signatureDigest ← packageText item "artifactSignatureSha256"
    if isSha256 (lowerText digest) = false ∨ isSha256 (lowerText signatureDigest) = false then
      .error (.new "package digest is invalid")
    else
      (validateURL literal url false).mapError (.wrap "package URL")
      (validateURL literal signatureUrl false).mapError (.wrap "package signature URL")
      match urlParse literal (goBytes url) with
      | none => .error (.new "package URL is invalid")
      | some parsed =>
        if parsed.host = [] ∨ parsed.rawQuery ≠ [] ∨ parsed.fragment ≠ [] then .error (.new "package URL is invalid")
        else
          let filename := filepathBase parsed.path
          if filename = ['.'] ∨ filename = ['/'] ∨ filename.contains '\\' then
            .error (.new "package URL has no safe filename")
          else
            .ok
              { releaseId := release, name := name, version := version, architecture := architecture
                repository := goString (releasesRepository (splitSlash (trimSlashes parsed.path)))
                filename := filename, url := url, signatureUrl := signatureUrl
                sha256 := digest, signatureSha256 := signatureDigest, install := true }

/-- Whether a package's URL is below the base URL of a repository. -/
def belongsTo (parsed : GoUrl) (repository : Repository) : Bool :=
  match urlParse literal (goBytes repository.packageBaseUrl) with
  | none => false
  | some base =>
    let basePath := (base.path.reverse.dropWhile (· = '/')).reverse
    parsed.scheme = base.scheme && parsed.host = base.host && parsed.user.isNone && base.user.isNone && basePath ≠ [] &&
      (basePath ++ ['/']).isPrefixOf parsed.path

/-- The repositories that a package's URL is of. -/
def packageRepositories (packageUrl : String) (repositories : List Repository) : Except GoError (List Repository) :=
  match urlParse literal (goBytes packageUrl) with
  | none => .error (.new "package URL is invalid")
  | some parsed => .ok (repositories.filter (belongsTo literal parsed))

/-- The package, where it is one for the architecture. -/
def selectedImagePackage (item : Object) (architecture : String) (repositories : List Repository) :
    Except GoError (Option ImageLockPackage) := do
  let pkg ← imagePackage literal item
  if pkg.architecture ≠ architecture ∧ pkg.architecture ≠ "any" then .ok none
  else
    match ← packageRepositories literal pkg.url repositories with
    | [repository] => .ok (some { pkg with repository := repository.name })
    | [] => if pkg.architecture = "any" then .ok none else .error (packageRepositoryError 0)
    | found => .error (packageRepositoryError found.length)

/-- What the lock has of the packages so far, by file name. -/
def addPackage (selected : List ImageLockPackage) (pkg : ImageLockPackage) : Except GoError (List ImageLockPackage) :=
  match selected.find? (·.filename = pkg.filename) with
  | some prior =>
    if prior ≠ pkg then
      .error (.errorf "selected package filename %s has conflicting identities" [goString pkg.filename])
    else .ok selected
  | none => .ok (selected ++ [pkg])

/-- One entry of a chunk. -/
def addEntry (manifestUrl : String) (tx : Transaction) (selected : List ImageLockPackage) (item : Object) :
    Except GoError (List ImageLockPackage) := do
  let allPackage ← imagePackage literal item
  validateSameOrigin literal manifestUrl allPackage.url
  validateSameOrigin literal manifestUrl allPackage.signatureUrl
  match ← selectedImagePackage literal item tx.architecture tx.repositories with
  | none => .ok selected
  | some pkg => addPackage selected pkg

def addEntries (manifestUrl : String) (tx : Transaction) (selected : List ImageLockPackage) (items : List Object) :
    Except GoError (List ImageLockPackage) :=
  items.foldlM (addEntry literal manifestUrl tx) selected

end

/-! ## The output directory -/

/-- The directory of the lock: the files it had, and those that were written, in order. -/
structure Output where
  before : List (String × Bytes)
  written : List (String × Bytes)
  deriving DecidableEq

/-- The bytes stored at a path. -/
def Output.get (out : Output) (name : String) : Option Bytes :=
  ((out.written.reverse ++ out.before).find? (·.1 = name)).map (·.2)

def Output.write (overwrite : Bool) (out : Output) (name : String) (data : Bytes) : Except GoError Output :=
  if overwrite = false ∧ (out.get name).isSome = true then .error (.errorf "refusing to replace %s" [name])
  else .ok { out with written := out.written ++ [(name, data)] }

/-! ## Retained inputs -/

/-- The transaction with its two lane manifests, verified. -/
structure RetainedInputs where
  manifestUrl : String
  root : RawManifest
  system : RawManifest
  opr : RawManifest
  tx : Transaction

/-- A package chunk as `json.Unmarshal` reads it. -/
structure ChunkObject where
  schemaVersion : Int
  index : Int
  count : Int
  packages : List Object

/-- What is written of a transaction: the lock but for its packages, those that were selected, and how many entries the
chunks have. -/
structure Collected where
  out : Output
  repositories : List ImageLockRepository
  packageChunks : List ImageLockRef
  selected : List ImageLockPackage
  allPackageCount : Nat

def maxRepositoryDatabaseBytes : Nat := 134217728

def repositoryFile (name : String) : String :=
  "repo-" ++ String.ofList (name.toList.map fun c => if c = '_' then '-' else c) ++ ".db"

/-- `%04d`. -/
def pad4 (n : Nat) : String := String.ofList (List.replicate (4 - (Nat.toDigits 10 n).length) '0' ++ Nat.toDigits 10 n)

def chunkFile (index : Nat) : String := "package-chunk-" ++ pad4 index ++ ".json"

/-- What sorts the packages, and the order in which a map is iterated. -/
structure Choices where
  sortSlice : (ImageLockPackage → ImageLockPackage → Bool) → List ImageLockPackage → List ImageLockPackage
  order : List ImageLockPackage → List ImageLockPackage

section
variable (literal : List Char → Option (List Char)) (sha256 : Bytes → Hash.Digest) (client : ManifestClient)
  (unmarshalChunk : Bytes → Option ChunkObject)

/-- `ResolveRequested`, then the same documents once more. Each of the two finds a world of its own. -/
def retainTransaction (first second : Env) (manifestUrl : String) : Except GoError RetainedInputs := do
  let ref ← resolveRequestedRef literal client first manifestUrl ""
  let verified ← resolveAt literal sha256 client first ref.manifestUrl ref.signatureUrl
  let ref ← resolveRequestedRef literal client second manifestUrl client.rootSignatureUrl
  let root ← fetchSignedAt literal sha256 client second 0 ref.manifestUrl ref.signatureUrl maxManifestBytes
  let tx ← parseTransaction root
  let tx ← selectArchitecture client.architecture { tx with digest := root.document.digest }
  if tx.digest ≠ verified.digest then .error (.new "verified transaction changed while retaining image inputs")
  else
    let system ← fetchReference literal sha256 client second 2 tx.systemRef "system"
    let opr ← fetchReference literal sha256 client second 4 tx.oprRef "opr"
    validateChild tx system opr
    validateTransactionURL literal client ref.manifestUrl tx
    .ok ⟨ref.manifestUrl, root, system, opr, tx⟩

variable (env : Env) (overwrite : Bool)

/-- A document and its signature as two files. -/
def writeManifest (raw : RawManifest) (name : String) (out : Output) : Except GoError (ImageLockRef × Output) := do
  let out ← out.write overwrite name raw.document.canonical
  let out ← out.write overwrite (name ++ ".sig") raw.signature
  .ok (⟨name, raw.document.digest, name ++ ".sig", sha256Hex sha256 raw.signature, raw.signatureUrl⟩, out)

/-- The loop over the repositories; `place` is that of the next request. -/
def writeRepositories (manifestUrl : String) (place : Nat) : List Repository → Output →
    Except GoError (List ImageLockRepository × Output)
  | [], out => .ok ([], out)
  | repository :: rest, out => do
    validateSameOrigin literal manifestUrl repository.dbUrl
    validateSameOrigin literal manifestUrl repository.signatureUrl
    let database ← fetch literal client env place repository.dbUrl maxRepositoryDatabaseBytes
    if sha256Hex sha256 database ≠ lowerText repository.snapshotDigest then
      .error (.errorf "%s repository database digest mismatch" [repository.name])
    else
      let signature ← fetch literal client env (place + 1) repository.signatureUrl maxSignatureBytes
      (verifyOpenPGP client env place database signature).mapError (.wrap ("verify " ++ repository.name ++ " repository signature"))
      let file := repositoryFile repository.name
      let out ← out.write overwrite file database
      let out ← out.write overwrite (file ++ ".sig") signature
      let (refs, out) ← writeRepositories manifestUrl (place + 2) rest out
      .ok (⟨repository.name, repository.architecture, file, repository.snapshotDigest, file ++ ".sig",
        sha256Hex sha256 signature, repository.packageBaseUrl⟩ :: refs, out)

/-- The loop over the chunks, of which the first has the number `index`. -/
def writeChunks (manifestUrl : String) (tx : Transaction) (place index : Nat) : List PackageChunk → Output →
    List ImageLockPackage → Except GoError (List ImageLockRef × Output × List ImageLockPackage × Nat)
  | [], out, selected => .ok ([], out, selected, 0)
  | chunk :: rest, out, selected => do
    validateSameOrigin literal manifestUrl chunk.url
    let data ← fetch literal client env place chunk.url (maxManifestBytes * 32)
    if sha256Hex sha256 data ≠ lowerText chunk.digest then
      .error (.errorf "package chunk %d digest mismatch" [toString index])
    else
      match unmarshalChunk data with
      | none => .error (.errorf "package chunk %d contract is invalid" [toString index])
      | some object =>
        if object.schemaVersion ≠ 1 ∨ object.index ≠ chunk.index ∨ object.count ≠ chunk.count ∨
            (object.packages.length : Int) ≠ chunk.packageCount then
          .error (.errorf "package chunk %d contract is invalid" [toString index])
        else
          let out ← out.write overwrite (chunkFile index) data
          let selected ← (addEntries literal manifestUrl tx selected object.packages).mapError
            (.wrap ("package chunk " ++ toString index))
          let (refs, out, selected, count) ← writeChunks manifestUrl tx (place + 1) (index + 1) rest out selected
          .ok (⟨chunkFile index, chunk.digest, "", "", ""⟩ :: refs, out, selected, object.packages.length + count)

/-- The files of the lock, and its packages in no order yet. -/
def collectInputs (r : RetainedInputs) (out : Output) :
    Except GoError (ImageLockRef × ImageLockRef × ImageLockRef × Collected) := do
  let (transaction, out) ← writeManifest sha256 overwrite r.root "transaction.json" out
  let (system, out) ← writeManifest sha256 overwrite r.system "system.json" out
  let (opr, out) ← writeManifest sha256 overwrite r.opr "opr.json" out
  let (repositories, out) ← writeRepositories literal sha256 client env overwrite r.manifestUrl 6 r.tx.repositories out
  let (chunks, out, selected, count) ← writeChunks literal sha256 client unmarshalChunk env overwrite r.manifestUrl r.tx
    (6 + 2 * r.tx.repositories.length) 0 r.tx.packageChunks out []
  if (count : Int) ≠ r.tx.packageCount then
    .error (.errorf "source package chunk count %d does not match transaction count %d" [toString count, toString r.tx.packageCount])
  else if selected = [] ∧ 0 < count then
    .error (.errorf "no package chunk entries support target architecture %s" [r.tx.architecture])
  else .ok (transaction, system, opr, ⟨out, repositories, chunks, selected, count⟩)

/-! ## The lock -/

/-- What the packages are sorted by. -/
def imageKey (p : ImageLockPackage) : String := "\x00".intercalate [p.name, p.architecture, p.version, p.sha256]

def keyLess (a b : ImageLockPackage) : Bool := imageKey a < imageKey b

def packageValue (p : ImageLockPackage) : GoValue :=
  .obj [("releaseId", .str p.releaseId), ("name", .str p.name), ("version", .str p.version),
    ("architecture", .str p.architecture), ("repository", .str p.repository), ("filename", .str (goString p.filename)),
    ("url", .str p.url), ("signatureUrl", .str p.signatureUrl), ("sha256", .str p.sha256),
    ("signatureSha256", .str p.signatureSha256), ("install", .bool p.install)]

/-- A package in `canonicalPackageSet`, which writes a map. -/
def packageSetValue (p : ImageLockPackage) : GoValue :=
  .obj [("architecture", .str p.architecture), ("filename", .str (goString p.filename)), ("install", .bool p.install),
    ("name", .str p.name), ("releaseId", .str p.releaseId), ("repository", .str p.repository), ("sha256", .str p.sha256),
    ("signatureSha256", .str p.signatureSha256), ("signatureUrl", .str p.signatureUrl), ("url", .str p.url),
    ("version", .str p.version)]

def canonicalPackageSet (packages : List ImageLockPackage) : Bytes := canonicalMarshal (.arr (packages.map packageSetValue))

/-- A member that is left out where it is empty. -/
def omitEmpty (name value : String) : List (String × GoValue) := if value = "" then [] else [(name, .str value)]

def refValue (ref : ImageLockRef) : GoValue :=
  .obj ([("path", .str ref.path), ("sha256", .str ref.sha256), ("signature", .str ref.signature)] ++
    omitEmpty "signatureSha256" ref.signatureSha256 ++ omitEmpty "signatureUrl" ref.signatureUrl)

def repositoryValue (r : ImageLockRepository) : GoValue :=
  .obj [("name", .str r.name), ("architecture", .str r.architecture), ("path", .str r.path), ("sha256", .str r.sha256),
    ("signature", .str r.signature), ("signatureSha256", .str r.signatureSha256), ("packageBaseUrl", .str r.packageBaseUrl)]

/-- A slice that was only appended to: without an element it is nil. -/
def sliceValue (values : List GoValue) : GoValue := if values = [] then .null else .arr values

def lockValue (lock : ImageLock) : GoValue :=
  .obj [("schemaVersion", .num (.ofNat lock.schemaVersion)), ("authority", .str lock.authority),
    ("transactionSha256", .str lock.transactionSha256), ("transaction", refValue lock.transaction),
    ("systemManifest", refValue lock.systemManifest), ("oprManifest", refValue lock.oprManifest),
    ("repositories", sliceValue (lock.repositories.map repositoryValue)),
    ("packageChunks", sliceValue (lock.packageChunks.map refValue)),
    ("packages", sliceValue (lock.packages.map packageValue)), ("packageCount", .num (.ofNat lock.packageCount)),
    ("sourcePackageCount", .num (.ofNat lock.sourcePackageCount)), ("packageSetSha256", .str lock.packageSetSha256),
    ("architecture", .str lock.architecture), ("systemVersion", .str lock.systemVersion),
    ("oprGeneration", .str lock.oprGeneration), ("sourceDateEpoch", .num (.ofInt lock.sourceDateEpoch))]

/-- The lock with its packages in the order of their keys. -/
def imageLock (choices : Choices) (r : RetainedInputs) (transaction system opr : ImageLockRef) (c : Collected) : ImageLock :=
  let packages := choices.sortSlice keyLess (choices.order c.selected)
  { schemaVersion := 1, authority := "omarchy-manifest-client-v1", transactionSha256 := r.root.document.digest
    transaction := transaction, systemManifest := system, oprManifest := opr, repositories := c.repositories
    packageChunks := c.packageChunks, packages := packages, packageCount := packages.length
    sourcePackageCount := c.allPackageCount, packageSetSha256 := sha256Hex sha256 (canonicalPackageSet packages)
    architecture := r.tx.architecture, systemVersion := r.tx.identity.version, oprGeneration := r.tx.identity.generation
    sourceDateEpoch := r.tx.createdAt }

/-- What follows once the inputs are retained. -/
def writeRetained (choices : Choices) (r : RetainedInputs) (out : Output) : Except GoError (ImageLock × Output) := do
  let (transaction, system, opr, c) ← collectInputs literal sha256 client unmarshalChunk env overwrite r out
  let lock := imageLock sha256 choices r transaction system opr c
  let out ← c.out.write overwrite "release-lock.json" (canonicalMarshal (lockValue lock))
  .ok (lock, out)

end

/-- `writeImageLock` into a directory that has these files. -/
def writeImageLock (literal : List Char → Option (List Char)) (sha256 : Bytes → Hash.Digest) (client : ManifestClient)
    (unmarshalChunk : Bytes → Option ChunkObject) (first second : Env) (overwrite : Bool) (choices : Choices)
    (manifestUrl : String) (before : List (String × Bytes)) : Except GoError (ImageLock × Output) := do
  let r ← retainTransaction literal sha256 client first second manifestUrl
  writeRetained literal sha256 client unmarshalChunk second overwrite choices r ⟨before, []⟩

end Omapkg.Client
