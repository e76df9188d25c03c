import Omapkg.Lib.Resume
import Omapkg.Server.Signer
import Omapkg.Server.Urls
/-!
# Owned repositories

`src/src/lib/server/owned-repository.ts`: preparing a release stores its
artifacts, a database and a file map for every repository, the universe of its
packages and the chunks that list them. Each row and object is stored by a step
of its own, so a preparation that stops leaves what it has stored so far.
-/

namespace Omapkg.Server.Owned

open Utf Json Prog

def maxPackages : Nat := 100000

/-! ## Rows -/

inductive OwnedLane where
  | system | opr
  deriving DecidableEq, Repr

def OwnedLane.text : OwnedLane → String
  | .system => "system"
  | .opr => "opr"

abbrev Collection := RepositoryName

inductive ArtifactArchitecture where
  | x86_64 | aarch64 | any
  deriving DecidableEq, Repr

def ArtifactArchitecture.text : ArtifactArchitecture → String
  | .x86_64 => "x86_64"
  | .aarch64 => "aarch64"
  | .any => "any"

structure PackageMetadata where
  name : String
  fullVersion : String
  architecture : Architecture
  installedSize : Option Nat
  depends : List String
  provides : List String
  conflicts : List String
  replaces : List String

structure PackageRecord where
  name : String
  version : String
  architecture : ArtifactArchitecture
  artifactKey : String
  signatureKey : String
  artifactSha256 : String
  artifactSize : Nat
  artifactFilename : String
  sourceDateEpoch : Nat
  license : String
  upstreamUrl : String
  description : String
  metadata : PackageMetadata
  collection : Collection
  targetArchitecture : Architecture
  pkgbase : String
  cohortId : String
  cohortRevision : Nat
  buildId : String
  buildAttempt : Nat
  revisionId : String
  signatureSha256 : String
  attestationKey : String
  attestationSha256 : String
  attestationSignatureKey : String
  attestationSignatureSha256 : String
  attestationSize : Nat
  rebuildOn : List String
  abiInventoryRef : Option String

structure ArtifactRow extends PackageRecord where
  ownedArtifactId : String

/-- A row of `owned_repository_artifacts`. -/
structure StoredArtifact extends ArtifactRow where
  createdAt : Int

inductive OwnedStatus where
  | prepared | published | superseded
  deriving DecidableEq, Repr

/-- A row of `owned_repository_snapshots`. -/
structure SnapshotRow where
  id : String
  lane : OwnedLane
  releaseId : String
  architecture : Architecture
  collection : Collection
  dbFilename : String
  dbKey : String
  dbSha256 : String
  dbSize : Nat
  dbSignatureKey : String
  dbSignatureSha256 : String
  filenameMapKey : String
  filenameMapSha256 : String
  filenameMapSize : Nat
  packageCount : Nat
  status : OwnedStatus
  createdAt : Int

/-- A row of `owned_repository_snapshot_packages`. -/
structure SnapshotPackage where
  snapshotId : String
  artifactId : String
  ordinal : Nat
  filename : String
  artifactSha256 : String

/-- A row of `owned_repository_universes`. -/
structure UniverseRow where
  id : String
  lane : OwnedLane
  releaseId : String
  rootSha256 : String
  packageCount : Nat
  status : OwnedStatus
  createdAt : Int

/-- A row of `owned_repository_universe_packages`. -/
structure UniversePackage where
  universeId : String
  ordinal : Nat
  artifactId : String
  collection : Collection
  targetArchitecture : Architecture

/-- A row of `owned_repository_package_chunks`. -/
structure ChunkRow where
  id : String
  lane : OwnedLane
  releaseId : String
  chunkIndex : Nat
  chunkCount : Nat
  packageCount : Nat
  objectKey : String
  objectSha256 : String
  objectSize : Nat
  status : OwnedStatus
  createdAt : Int

/-- The tables and the bucket. Random ids are new, so no insert clashes with one. -/
structure RepoState where
  artifacts : List StoredArtifact
  snapshots : List SnapshotRow
  snapshotPackages : List SnapshotPackage
  universes : List UniverseRow
  universePackages : List UniversePackage
  chunks : List ChunkRow
  objects : String → Option Bytes

structure PrepareInput where
  lane : OwnedLane
  releaseId : String
  cohortIds : List String
  trustedParentReleaseId : Option String

/-- An `OwnedRepositorySnapshotRef`. -/
structure SnapshotRef extends SnapshotRow where
  dbUrl : String
  signatureUrl : String
  packageBaseUrl : String

structure Evidence where
  url : String
  sha256 : String
  size : Nat

/-- An `OwnedRepositoryPackageRef`. -/
structure PackageRef where
  releaseId : String
  name : String
  version : String
  architecture : ArtifactArchitecture
  collection : Collection
  targetArchitecture : Architecture
  artifactUrl : String
  artifactSha256 : String
  artifactSignatureUrl : String
  artifactSignatureSha256 : String
  cohortId : String
  evidence : List Evidence
  ownedArtifactId : String

/-- An `OwnedRepositoryPackageChunkRef`. -/
structure ChunkRef where
  key : String
  url : String
  sha256 : String
  size : Nat
  index : Nat
  count : Nat
  packageCount : Nat

structure Preparation where
  lane : OwnedLane
  releaseId : String
  snapshots : List SnapshotRef
  packageChunks : List ChunkRef
  packageCount : Nat
  universeId : String
  universeSha256 : String

/-- What a preparation is given. `current` and `trusted` are what
`currentPackageRecords` and `trustedParentRecords` read, of tables and objects that
a preparation leaves alone. `database` is `repositoryDatabaseForPackages`, `sign`
asks the signing service, which signs an object once, and `collate` is
`localeCompare`. `takesIndex` says whether the database's parser takes the
keyword `index` for the name of a column. -/
structure RepositoryEnv where
  origin : String
  sha256 : Bytes → Hash.Digest
  collate : String → String → Bool
  database : List ArtifactRow → Except PolicyError Bytes
  manifestSha256 : String → String
  sign : SignatureInput → Except PolicyError (String × String)
  current : PrepareInput → Except PolicyError (List PackageRecord)
  trusted : PrepareInput → Except PolicyError (List ArtifactRow × List SnapshotRow)
  takesIndex : Bool

/-! ## Draws -/

/-- Where a preparation calls `id()` and `now()`: once for every row with an id. -/
inductive Place where
  | artifact (k : Nat)
  | snapshot (k : Nat)
  | root
  | chunk (k : Nat)
  deriving DecidableEq

structure Draw where
  id : String
  now : Int

abbrev RepoDraws := Draws Place Draw

/-! ## Names and places -/

def rejected {α : Type} (message : String) : Prog RepoState PolicyError α := fail ⟨409, message⟩

/-- `text`, which trims nothing. -/
def ownedText (value label : String) (maximum : Nat) : Except PolicyError String :=
  if value = "" ∨ (units value).length > maximum ∨ value.toList.any (fun c => c ≤ '\x1f' || c = '\x7f') = true then
    reject s!"{label} is invalid." 400
  else .ok value

def releaseId (lane : OwnedLane) (value : String) : Except PolicyError String := do
  let result ← ownedText value "Release identity" 128
  if isIdWord 127 result.toList = false ∨ (lane = .system ∧ parseSystemVersion (units result) = none) ∨
      (lane = .opr ∧ isOprId result.toList = false) then
    reject "Owned release identity is invalid." 400
  else .ok result

/-- `encodeURIComponent` of a string without lone surrogates. -/
def encoded (value : String) : String :=
  String.ofList (value.toList.flatMap fun c =>
    if isUriUnreserved c then [c] else (String.utf8EncodeChar c).flatMap percentByte)

/-- `PUBLIC_ORIGIN` without the slash at its end. -/
def RepositoryEnv.root (env : RepositoryEnv) : String :=
  if env.origin.toList.getLast? = some '/' then String.ofList env.origin.toList.dropLast else env.origin

def releaseRoot (lane : OwnedLane) (idValue : String) : String :=
  match lane with
  | .system => "/repo/releases/" ++ encoded idValue
  | .opr => "/repo/opr/" ++ encoded idValue

def baseUrl (env : RepositoryEnv) (lane : OwnedLane) (idValue : String) (name : Collection) (architecture : Architecture) :
    String := s!"{env.root}{releaseRoot lane idValue}/{name.text}/{architecture.text}/"

def objectKey (lane : OwnedLane) (release : String) (collection : Collection) (architecture : Architecture)
    (filename : String) : String :=
  s!"owned-repositories/{lane.text}/{encoded release}/{collection.text}/{architecture.text}/{filename}"

def mapKey (lane : OwnedLane) (release : String) (collection : Collection) (architecture : Architecture) : String :=
  objectKey lane release collection architecture "filename-map.json"

def chunkKey (lane : OwnedLane) (release : String) (index : Nat) : String :=
  s!"owned-repositories/{lane.text}/{encoded release}/package-chunks/{index}.json"

def chunkUrl (env : RepositoryEnv) (lane : OwnedLane) (release : String) (index : Nat) : String :=
  s!"{env.root}{releaseRoot lane release}/package-chunks/{index}.json"

structure Pair where
  collection : Collection
  architecture : Architecture
  deriving DecidableEq

/-- The repositories of a lane; `multilib` is there for x86_64 only. -/
def pairs : OwnedLane → List Pair
  | .system => [⟨.core, .x86_64⟩, ⟨.core, .aarch64⟩, ⟨.extra, .x86_64⟩, ⟨.extra, .aarch64⟩, ⟨.multilib, .x86_64⟩,
      ⟨.omarchy, .x86_64⟩, ⟨.omarchy, .aarch64⟩]
  | .opr => [⟨.omapkg, .x86_64⟩, ⟨.omapkg, .aarch64⟩]

/-! ## Merging -/

/-- A `Map`: entries in the order their keys came. -/
abbrev JsMap (α : Type) := List (String × α)

namespace JsMap

variable {α : Type}

def get (m : JsMap α) (key : String) : Option α := (m.find? (·.1 = key)).map (·.2)

def set (m : JsMap α) (key : String) (value : α) : JsMap α :=
  if m.any (·.1 = key) then m.map fun e => if e.1 = key then (key, value) else e else m ++ [(key, value)]

def delete (m : JsMap α) (key : String) : JsMap α := m.filter (·.1 ≠ key)

end JsMap

def targetKey (target : Architecture) (value : String) : String := s!"{target.text}:{value}"

def PackageRecord.nameKey (record : PackageRecord) : String := targetKey record.targetArchitecture record.name

def PackageRecord.fileKey (record : PackageRecord) : String := targetKey record.targetArchitecture record.artifactFilename

/-- The packages by name and by file, for every target. -/
structure Merged where
  byTargetName : JsMap PackageRecord
  byFilename : JsMap PackageRecord

def checkCurrent : List PackageRecord → Except PolicyError Unit
  | records =>
    if (records.map (·.nameKey)).Nodup ∧ (records.map (·.fileKey)).Nodup then .ok ()
    else reject "Current owned cohort contains duplicate package names or filenames." 409

def addParent (m : Merged) (record : PackageRecord) : Except PolicyError Merged :=
  if (m.byTargetName.get record.nameKey).isSome ∨ (m.byFilename.get record.fileKey).isSome then
    reject "Trusted parent contains duplicate package names or filenames." 409
  else .ok ⟨m.byTargetName.set record.nameKey record, m.byFilename.set record.fileKey record⟩

/-- A package of any architecture is there for every target. -/
def addAny (record : PackageRecord) (m : Merged) (target : Architecture) : Except PolicyError Merged :=
  let existing := m.byTargetName.get (targetKey target record.name)
  if existing.any (·.collection ≠ record.collection) then
    reject s!"Package {record.name} changes owned repository collection." 409
  else
    let byFilename :=
      match existing with
      | some old => m.byFilename.delete (targetKey target old.artifactFilename)
      | none => m.byFilename
    let copy := { record with targetArchitecture := target }
    .ok ⟨(m.byTargetName.delete (targetKey target record.name)).set (targetKey target record.name) copy,
      byFilename.set (targetKey target record.artifactFilename) copy⟩

def addCurrent (m : Merged) (record : PackageRecord) : Except PolicyError Merged :=
  let previousName := m.byTargetName.get record.nameKey
  if previousName.any (·.collection ≠ record.collection) then
    reject s!"Package {record.name} changes owned repository collection." 409
  else if (m.byFilename.get record.fileKey).any (·.artifactSha256 ≠ record.artifactSha256) then
    reject s!"Package filename {record.artifactFilename} is already bound to different bytes." 409
  else if record.architecture = .any then [Architecture.x86_64, .aarch64].foldlM (addAny record) m
  else
    let byFilename :=
      match previousName with
      | some old => m.byFilename.delete (targetKey record.targetArchitecture old.artifactFilename)
      | none => m.byFilename
    .ok ⟨m.byTargetName.set record.nameKey record, byFilename.set record.fileKey record⟩

/-- The parent's packages and the current ones, which replace them. -/
def mergeRecords (env : RepositoryEnv) (current : List PackageRecord) (parent : List ArtifactRow) :
    Except PolicyError (List PackageRecord) := do
  checkCurrent current
  let m ← (parent.map (·.toPackageRecord)).foldlM addParent ⟨[], []⟩
  let m ← current.foldlM addCurrent m
  let result := m.byTargetName.map (·.2)
  if (result.map (·.nameKey)).Nodup ∧ (result.map (·.fileKey)).Nodup then
    let key (record : PackageRecord) : String :=
      s!"{record.collection.text}:{record.targetArchitecture.text}:{record.name}:{record.version}"
    .ok (result.insertionSort fun a b => env.collate (key a) (key b) = true)
  else reject "Owned repository contains duplicate package names or filenames." 409

/-! ## Documents -/

def packageMap (base : String) (records : List ArtifactRow) (input : PrepareInput) (pair : Pair) (env : RepositoryEnv) :
    Json JsString := jsObject [
  ("schemaVersion", jsNat 1), ("lane", jsText input.lane.text), ("releaseId", jsText input.releaseId),
  ("collection", jsText pair.collection.text), ("architecture", jsText pair.architecture.text),
  ("packageCount", jsNat records.length),
  ("packages", .arr ((records.insertionSort fun a b => env.collate a.artifactFilename b.artifactFilename = true).map
    fun record => jsObject [
      ("id", jsText record.ownedArtifactId), ("name", jsText record.name), ("version", jsText record.version),
      ("architecture", jsText record.architecture.text), ("filename", jsText record.artifactFilename),
      ("artifactSha256", jsText record.artifactSha256), ("artifactSize", jsNat record.artifactSize),
      ("artifactUrl", jsText (base ++ encoded record.artifactFilename)),
      ("artifactSignatureSha256", jsText record.signatureSha256),
      ("artifactSignatureUrl", jsText (base ++ encoded record.artifactFilename ++ ".sig")),
      ("attestationSha256", jsText record.attestationSha256)]))]

def universeEntry (record : ArtifactRow) : Json JsString := jsObject [
  ("id", jsText record.ownedArtifactId), ("collection", jsText record.collection.text),
  ("targetArchitecture", jsText record.targetArchitecture.text), ("pkgbase", jsText record.pkgbase),
  ("name", jsText record.name), ("version", jsText record.version), ("architecture", jsText record.architecture.text),
  ("artifactSha256", jsText record.artifactSha256), ("artifactSize", jsNat record.artifactSize),
  ("depends", .arr (record.metadata.depends.map jsText)), ("provides", .arr (record.metadata.provides.map jsText)),
  ("conflicts", .arr (record.metadata.conflicts.map jsText)), ("replaces", .arr (record.metadata.replaces.map jsText)),
  ("rebuildOn", .arr (record.rebuildOn.map jsText)), ("buildId", jsText record.buildId),
  ("attempt", jsNat record.buildAttempt), ("abiInventoryRef", orNull jsText record.abiInventoryRef),
  ("cohortId", jsText record.cohortId), ("cohortRevision", jsNat record.cohortRevision)]

def Evidence.toJson (e : Evidence) : Json JsString := jsObject [
  ("url", jsText e.url), ("sha256", jsText e.sha256), ("size", jsNat e.size)]

def PackageRef.toJson (r : PackageRef) : Json JsString := jsObject [
  ("releaseId", jsText r.releaseId), ("name", jsText r.name), ("version", jsText r.version),
  ("architecture", jsText r.architecture.text), ("collection", jsText r.collection.text),
  ("targetArchitecture", jsText r.targetArchitecture.text), ("artifactUrl", jsText r.artifactUrl),
  ("artifactSha256", jsText r.artifactSha256), ("artifactSignatureUrl", jsText r.artifactSignatureUrl),
  ("artifactSignatureSha256", jsText r.artifactSignatureSha256), ("cohortId", jsText r.cohortId),
  ("evidence", .arr (r.evidence.map Evidence.toJson)), ("ownedArtifactId", jsText r.ownedArtifactId)]

def publicPackageRef (env : RepositoryEnv) (lane : OwnedLane) (release : String) (record : ArtifactRow) : PackageRef :=
  let base := baseUrl env lane release record.collection record.targetArchitecture
  { releaseId := record.ownedArtifactId
    name := record.name
    version := record.version
    architecture := record.architecture
    collection := record.collection
    targetArchitecture := record.targetArchitecture
    artifactUrl := base ++ encoded record.artifactFilename
    artifactSha256 := record.artifactSha256
    artifactSignatureUrl := base ++ encoded record.artifactFilename ++ ".sig"
    artifactSignatureSha256 := record.signatureSha256
    cohortId := record.cohortId
    evidence := [⟨s!"{env.root}/repo/owned-attestations/{encoded record.buildId}/{record.buildAttempt}.json",
      record.attestationSha256, record.attestationSize⟩]
    ownedArtifactId := record.ownedArtifactId }

def chunkDocument (index count : Nat) (packages : List PackageRef) : Json JsString := jsObject [
  ("schemaVersion", jsNat 1), ("index", jsNat index), ("count", jsNat count),
  ("packages", .arr (packages.map PackageRef.toJson))]

def jsonBytes (value : Json JsString) : Bytes := encode (canonicalJson value)

/-! ## Objects -/

/-- `verifyHead` of an object that is there. -/
def verifyHead (env : RepositoryEnv) (key : String) (object : Bytes) (digest : String) (size : Nat) :
    Prog RepoState PolicyError Unit :=
  if object.length ≠ size then rejected s!"Immutable object {key} does not match expected size."
  else do
    let current ← read (·.objects key)
    match current with
    | none => fail ⟨503, s!"Immutable object {key} disappeared during verification."⟩
    | some bytes =>
      if bytes.length ≠ size ∨ (env.sha256 bytes).hex ≠ digest then
        rejected s!"Immutable object {key} does not match expected digest."
      else pure ()

/-- `put` on the condition that nothing is there yet. -/
def putNew (key : String) (bytes : Bytes) : Prog RepoState PolicyError Bool :=
  transact fun s =>
    match s.objects key with
    | some _ => (.ok false, s)
    | none => (.ok true, { s with objects := Function.update s.objects key (some bytes) })

def immutableBytes (env : RepositoryEnv) (key : String) (bytes : Bytes) (digest : String) :
    Prog RepoState PolicyError Unit :=
  if isSafeKey key = false then rejected "Invalid object key."
  else if Hash.isHexDigest digest.toList = false then rejected "Immutable object digest is invalid."
  else do
    let existing ← read (·.objects key)
    match existing with
    | some object => verifyHead env key object digest bytes.length
    | none =>
      let stored ← putNew key bytes
      if stored then pure ()
      else
        let raced ← read (·.objects key)
        match raced with
        | none => fail ⟨503, "Immutable object publication raced and could not be verified."⟩
        | some object => verifyHead env key object digest bytes.length

/-! ## Statements -/

def raise (raised : Sql.Raised) : PolicyError := ⟨500, raised.message⟩

def runOne (statement : Sql.Statement RepoState) : Prog RepoState PolicyError (List Nat) := Sql.run [statement] raise

def insertArtifact (row : StoredArtifact) : Sql.Statement RepoState := fun s _ => do
  let (artifacts, n) ← Sql.insert
    (fun a => a.targetArchitecture = row.targetArchitecture && a.artifactFilename = row.artifactFilename)
    "UNIQUE constraint failed: owned_repository_artifacts" row s.artifacts
  .ok ({ s with artifacts }, n)

def insertSnapshot (row : SnapshotRow) : Sql.Statement RepoState := fun s _ => do
  let (snapshots, n) ← Sql.insert
    (fun r => r.dbKey = row.dbKey || r.filenameMapKey = row.filenameMapKey ||
      (r.lane = row.lane && r.releaseId = row.releaseId && r.architecture = row.architecture && r.collection = row.collection))
    "UNIQUE constraint failed: owned_repository_snapshots" row s.snapshots
  .ok ({ s with snapshots }, n)

def insertSnapshotPackage (row : SnapshotPackage) : Sql.Statement RepoState := fun s _ =>
  .ok ({ s with snapshotPackages := s.snapshotPackages ++ [row] }, 1)

def insertUniverse (row : UniverseRow) : Sql.Statement RepoState := fun s _ => do
  let (universes, n) ← Sql.insert (·.releaseId = row.releaseId) "UNIQUE constraint failed: owned_repository_universes" row
    s.universes
  .ok ({ s with universes }, n)

def insertUniversePackage (row : UniversePackage) : Sql.Statement RepoState := fun s _ =>
  .ok ({ s with universePackages := s.universePackages ++ [row] }, 1)

def insertChunk (row : ChunkRow) : Sql.Statement RepoState := fun s _ => do
  let (chunks, n) ← Sql.insert
    (fun r => r.objectKey = row.objectKey ||
      (r.lane = row.lane && r.releaseId = row.releaseId && r.chunkIndex = row.chunkIndex))
    "UNIQUE constraint failed: owned_repository_package_chunks" row s.chunks
  .ok ({ s with chunks }, n)

/-- A statement for each row, one after the other. -/
def runEach {α : Type} (statement : α → Sql.Statement RepoState) : List α → Prog RepoState PolicyError Unit
  | [] => pure ()
  | a :: rest => do
    let _ ← runOne (statement a)
    runEach statement rest

/-! ## Artifacts -/

def findArtifact (target : Architecture) (filename : String) (s : RepoState) : Option StoredArtifact :=
  s.artifacts.find? fun a => a.targetArchitecture = target && a.artifactFilename = filename

def persistArtifact (d : Draw) (record : PackageRecord) : Prog RepoState PolicyError ArtifactRow := do
  let existing ← read (findArtifact record.targetArchitecture record.artifactFilename)
  match existing with
  | some row =>
    if row.artifactSha256 ≠ record.artifactSha256 ∨ row.name ≠ record.name ∨ row.version ≠ record.version ∨
        row.collection ≠ record.collection ∨ row.architecture ≠ record.architecture then
      rejected s!"Immutable package filename {record.artifactFilename} has changed."
    else pure row.toArtifactRow
  | none =>
    let row : ArtifactRow := ⟨record, d.id⟩
    let _ ← runOne (insertArtifact ⟨row, d.now⟩)
    pure row

def persistArtifacts (ω : RepoDraws) : Nat → List PackageRecord → Prog RepoState PolicyError (List ArtifactRow)
  | _, [] => pure []
  | k, record :: rest => do
    let row ← persistArtifact (ω (.artifact k)) record
    let rows ← persistArtifacts ω (k + 1) rest
    pure (row :: rows)

/-! ## Snapshots -/

/-- What is stored in the bucket for a snapshot. -/
structure SnapshotObjects where
  dbSha256 : String
  dbSize : Nat
  dbSignatureKey : String
  dbSignatureSha256 : String
  filenameMapSha256 : String
  filenameMapSize : Nat

/-- The parent's signature, if the database is the parent's, or else a new one. -/
def signDatabase (env : RepositoryEnv) (dbKey dbFilename dbSha256 : String) (dbSize : Nat) (parent : Option SnapshotRow)
    (anchor : PackageRecord) : Prog RepoState PolicyError (String × String) :=
  match parent.filter (·.dbSha256 = dbSha256) with
  | some row => do
    let parentSignature ← read (·.objects row.dbSignatureKey)
    match parentSignature with
    | none => rejected "Trusted parent database signature is missing."
    | some bytes =>
      let _ ← immutableBytes env (dbKey ++ ".sig") bytes (env.sha256 bytes).hex
      pure (dbKey ++ ".sig", (env.sha256 bytes).hex)
  | none => ofExcept (env.sign ⟨anchor.buildId, some anchor.buildAttempt, anchor.revisionId,
      env.manifestSha256 anchor.revisionId, dbKey, .database, dbSha256, dbSize, dbFilename⟩)

def dbFilename (pair : Pair) : String := s!"{pair.collection.text}.db"

def dbKey (input : PrepareInput) (pair : Pair) : String :=
  objectKey input.lane input.releaseId pair.collection pair.architecture (dbFilename pair)

def pairRecords (records : List ArtifactRow) (pair : Pair) : List ArtifactRow :=
  records.filter fun record => record.collection = pair.collection && record.targetArchitecture = pair.architecture

def mapBytes (env : RepositoryEnv) (input : PrepareInput) (pair : Pair) (records : List ArtifactRow) : Bytes :=
  jsonBytes (packageMap (baseUrl env input.lane input.releaseId pair.collection pair.architecture) records input pair env)

/-- The part of `storeSnapshot` before its row is stored. -/
def storeObjects (env : RepositoryEnv) (input : PrepareInput) (pair : Pair) (records : List ArtifactRow)
    (parent : Option SnapshotRow) (anchor : PackageRecord) : Prog RepoState PolicyError SnapshotObjects := do
  let database ← ofExcept (env.database records)
  let dbSha256 := (env.sha256 database).hex
  let _ ← immutableBytes env (dbKey input pair) database dbSha256
  let signature ← signDatabase env (dbKey input pair) (dbFilename pair) dbSha256 database.length parent anchor
  let map := mapBytes env input pair records
  let _ ← immutableBytes env (mapKey input.lane input.releaseId pair.collection pair.architecture) map (env.sha256 map).hex
  pure ⟨dbSha256, database.length, signature.1, signature.2, (env.sha256 map).hex, map.length⟩

def newSnapshot (d : Draw) (input : PrepareInput) (pair : Pair) (records : List ArtifactRow) (stored : SnapshotObjects) :
    SnapshotRow where
  id := d.id
  lane := input.lane
  releaseId := input.releaseId
  architecture := pair.architecture
  collection := pair.collection
  dbFilename := dbFilename pair
  dbKey := dbKey input pair
  dbSha256 := stored.dbSha256
  dbSize := stored.dbSize
  dbSignatureKey := stored.dbSignatureKey
  dbSignatureSha256 := stored.dbSignatureSha256
  filenameMapKey := mapKey input.lane input.releaseId pair.collection pair.architecture
  filenameMapSha256 := stored.filenameMapSha256
  filenameMapSize := stored.filenameMapSize
  packageCount := records.length
  status := .prepared
  createdAt := d.now

def snapshotPackages (snapshotId : String) (records : List ArtifactRow) : List SnapshotPackage :=
  records.mapIdx fun ordinal record =>
    ⟨snapshotId, record.ownedArtifactId, ordinal, record.artifactFilename, record.artifactSha256⟩

/-- The part of `storeSnapshot` that stores its row and those below it. -/
def storeRows (d : Draw) (input : PrepareInput) (pair : Pair) (records : List ArtifactRow) (stored : SnapshotObjects) :
    Prog RepoState PolicyError SnapshotRow := do
  let row := newSnapshot d input pair records stored
  let _ ← runOne (insertSnapshot row)
  let _ ← runEach insertSnapshotPackage (snapshotPackages row.id records)
  pure row

def storeSnapshot (env : RepositoryEnv) (d : Draw) (input : PrepareInput) (pair : Pair) (records : List ArtifactRow)
    (parent : Option SnapshotRow) (anchor : PackageRecord) : Prog RepoState PolicyError SnapshotRow := do
  let stored ← storeObjects env input pair (pairRecords records pair) parent anchor
  storeRows d input pair (pairRecords records pair) stored

def parentByPair (parents : List SnapshotRow) (pair : Pair) : Option SnapshotRow :=
  parents.reverse.find? fun row => row.collection = pair.collection && row.architecture = pair.architecture

def storeSnapshots (env : RepositoryEnv) (ω : RepoDraws) (input : PrepareInput) (records : List ArtifactRow)
    (parents : List SnapshotRow) (anchor : PackageRecord) : Nat → List Pair → Prog RepoState PolicyError (List SnapshotRow)
  | _, [] => pure []
  | k, pair :: rest => do
    let row ← storeSnapshot env (ω (.snapshot k)) input pair records (parentByPair parents pair) anchor
    let rows ← storeSnapshots env ω input records parents anchor (k + 1) rest
    pure (row :: rows)

/-! ## The universe and its chunks -/

def packageRefIdentity (record : ArtifactRow) : String :=
  s!"{record.targetArchitecture.text}:{record.collection.text}:{record.name}:{record.version}:{record.architecture.text}:{record.artifactFilename}"

def persistUniverse (env : RepositoryEnv) (d : Draw) (input : PrepareInput) (records : List ArtifactRow) :
    Prog RepoState PolicyError (UniverseRow × List PackageRef) := do
  let ordered := records.insertionSort fun a b => env.collate (packageRefIdentity a) (packageRefIdentity b) = true
  if (ordered.map (·.nameKey)).Nodup ∧ (ordered.map (·.fileKey)).Nodup then
    let root := (env.sha256 (jsonBytes (.arr (ordered.map universeEntry)))).hex
    let row : UniverseRow := ⟨d.id, input.lane, input.releaseId, root, ordered.length, .prepared, d.now⟩
    let _ ← runOne (insertUniverse row)
    let _ ← runEach insertUniversePackage
      (ordered.mapIdx fun ordinal record => ⟨d.id, ordinal, record.ownedArtifactId, record.collection, record.targetArchitecture⟩)
    pure (row, ordered.map (publicPackageRef env input.lane input.releaseId))
  else rejected "Owned repository contains duplicate package names or files."

/-- Fills chunks one after the other, up to the limit of their documents. -/
def packChunks (done : List (List PackageRef)) (current : List PackageRef) :
    List PackageRef → Except PolicyError (List (List PackageRef))
  | [] => .ok (if current = [] then done else done ++ [current])
  | item :: rest =>
    let full := (jsonBytes (chunkDocument done.length maxChunks (current ++ [item]))).length > maxChunkBytes
    if full ∧ current = [] then reject "Owned repository package record exceeds chunk limit." 409
    else
      let done' := if full then done ++ [current] else done
      if done'.length ≥ maxChunks then reject "Owned repository package chunk limit exceeded." 409
      else packChunks done' (if full then [item] else current ++ [item]) rest

def newChunk (env : RepositoryEnv) (d : Draw) (input : PrepareInput) (index count : Nat) (packages : List PackageRef) :
    ChunkRow :=
  let bytes := jsonBytes (chunkDocument index count packages)
  ⟨d.id, input.lane, input.releaseId, index, count, packages.length, chunkKey input.lane input.releaseId index,
    (env.sha256 bytes).hex, bytes.length, .prepared, d.now⟩

def chunkRef (env : RepositoryEnv) (row : ChunkRow) : ChunkRef :=
  ⟨row.objectKey, chunkUrl env row.lane row.releaseId row.chunkIndex, row.objectSha256, row.objectSize, row.chunkIndex,
    row.chunkCount, row.packageCount⟩

def persistChunk (env : RepositoryEnv) (d : Draw) (input : PrepareInput) (index count : Nat) (packages : List PackageRef) :
    Prog RepoState PolicyError ChunkRef := do
  let bytes := jsonBytes (chunkDocument index count packages)
  if bytes.length > maxChunkBytes then rejected "Owned repository package chunk exceeds size limit."
  else
    let row := newChunk env d input index count packages
    let _ ← immutableBytes env row.objectKey bytes row.objectSha256
    let _ ← runOne (insertChunk row)
    pure (chunkRef env row)

def storeChunks (env : RepositoryEnv) (ω : RepoDraws) (input : PrepareInput) (count : Nat) :
    Nat → List (List PackageRef) → Prog RepoState PolicyError (List ChunkRef)
  | _, [] => pure []
  | index, packages :: rest => do
    let ref ← persistChunk env (ω (.chunk index)) input index count packages
    let refs ← storeChunks env ω input count (index + 1) rest
    pure (ref :: refs)

def persistChunks (env : RepositoryEnv) (ω : RepoDraws) (input : PrepareInput) (refs : List PackageRef) :
    Prog RepoState PolicyError (List ChunkRef) :=
  if refs = [] then rejected "Owned repository package universe is empty."
  else do
    let chunks ← ofExcept (packChunks [] [] refs)
    storeChunks env ω input chunks.length 0 chunks

/-! ## Preparing -/

def snapshotRef (env : RepositoryEnv) (row : SnapshotRow) : SnapshotRef :=
  let base := baseUrl env row.lane row.releaseId row.collection row.architecture
  { row with
    dbUrl := base ++ row.dbFilename
    signatureUrl := s!"{base}{row.dbFilename}.sig"
    packageBaseUrl := base }

def OwnedStatus.live : OwnedStatus → Bool
  | .prepared | .published => true
  | .superseded => false

def releaseUniverse (lane : OwnedLane) (release : String) (s : RepoState) : Option UniverseRow :=
  s.universes.find? fun u => u.lane = lane && u.releaseId = release && u.status.live

/-- `ORDER BY collection, architecture`. -/
def releaseSnapshots (lane : OwnedLane) (release : String) (s : RepoState) : List SnapshotRow :=
  (s.snapshots.filter fun r => r.lane = lane && r.releaseId = release).insertionSort fun a b =>
    a.collection.text < b.collection.text ∨ (a.collection = b.collection ∧ a.architecture.text ≤ b.architecture.text)

/-- `ORDER BY chunk_index`. -/
def releaseChunks (lane : OwnedLane) (release : String) (s : RepoState) : List ChunkRow :=
  (s.chunks.filter fun r => r.lane = lane && r.releaseId = release && r.status.live).insertionSort fun a b =>
    a.chunkIndex ≤ b.chunkIndex

/-- What was prepared before, which any universe is taken for. -/
def existingPreparation (env : RepositoryEnv) (lane : OwnedLane) (release : String) :
    Prog RepoState PolicyError (Option Preparation) := do
  let found ← read (releaseUniverse lane release)
  match found with
  | none => pure none
  | some row =>
    let rows ← read (releaseSnapshots lane release)
    -- `SELECT …, chunk_index AS index, …`: SQLite reserves `index`
    if env.takesIndex = false then fail ⟨500, "near \"index\": syntax error"⟩
    else
      let chunks ← read (releaseChunks lane release)
      if rows = [] ∨ chunks = [] then rejected "Owned repository preparation is incomplete."
      else pure (some ⟨lane, release, rows.map (snapshotRef env), chunks.map (chunkRef env), row.packageCount, row.id,
        row.rootSha256⟩)

/-- Stores a preparation of the merged records. -/
def storePreparation (env : RepositoryEnv) (ω : RepoDraws) (input : PrepareInput) (current merged : List PackageRecord)
    (parents : List SnapshotRow) : Prog RepoState PolicyError Preparation := do
  let records ← persistArtifacts ω 0 merged
  match current.head? <|> records.head?.map (·.toPackageRecord) with
  | none => rejected "Owned repository has no signing context."
  | some anchor =>
    let snapshots ← storeSnapshots env ω input records parents anchor 0 (pairs input.lane)
    let (row, refs) ← persistUniverse env (ω .root) input records
    let chunks ← persistChunks env ω input refs
    pure ⟨input.lane, input.releaseId, snapshots.map (snapshotRef env), chunks, refs.length, row.id, row.rootSha256⟩

/-- The input's own checks. -/
def checkInput (rawInput : PrepareInput) : Except PolicyError PrepareInput := do
  let id ← releaseId rawInput.lane rawInput.releaseId
  if rawInput.cohortIds.length > 512 ∨ ¬rawInput.cohortIds.Nodup then reject "Owned cohort selection is invalid." 400
  else .ok { rawInput with releaseId := id }

/-- The part of `prepareOwnedRepositorySnapshots` for a release that was not prepared before. -/
def prepareNew (env : RepositoryEnv) (input : PrepareInput) (ω : RepoDraws) : Prog RepoState PolicyError Preparation := do
  let current ← ofExcept (env.current input)
  let trusted ← ofExcept (env.trusted input)
  let merged ← ofExcept (mergeRecords env current trusted.1)
  if merged.length > maxPackages then rejected "Owned repository package limit exceeded."
  else storePreparation env ω input current merged trusted.2

def prepareOwnedRepositorySnapshots (env : RepositoryEnv) (rawInput : PrepareInput) (ω : RepoDraws) :
    Prog RepoState PolicyError Preparation := do
  let input ← ofExcept (checkInput rawInput)
  let existing ← existingPreparation env input.lane input.releaseId
  match existing with
  | some preparation => pure preparation
  | none => prepareNew env input ω

/-! ## A package -/

/-- A package of `omapkg` without relations. -/
def samplePackage : PackageRecord where
  name := "a"
  version := "1"
  architecture := .x86_64
  artifactKey := "artifacts/a"
  signatureKey := "artifacts/a.sig"
  artifactSha256 := "00"
  artifactSize := 1
  artifactFilename := "a-1.pkg.tar.zst"
  sourceDateEpoch := 1
  license := "MIT"
  upstreamUrl := "https://a.example"
  description := "A package."
  metadata := ⟨"a", "1", .x86_64, none, [], [], [], []⟩
  collection := .omapkg
  targetArchitecture := .x86_64
  pkgbase := "a"
  cohortId := "cohort"
  cohortRevision := 1
  buildId := "build"
  buildAttempt := 1
  revisionId := "revision"
  signatureSha256 := "01"
  attestationKey := "attestations/a"
  attestationSha256 := "02"
  attestationSignatureKey := "attestations/a.sig"
  attestationSignatureSha256 := "03"
  attestationSize := 1
  rebuildOn := []
  abiInventoryRef := none

end Omapkg.Server.Owned
