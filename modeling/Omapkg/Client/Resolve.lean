import Omapkg.Client.Fetch
/-!
# Resolving a transaction

`resolveAt` of `src/omarchy/manifest-client/client.go`: a signed transaction,
selected for the client's architecture, whose system and OPR manifests and
recovery target are fetched, verified and checked against it.
-/

namespace Omapkg.Client

open Utf

/-! ## Time -/

/-- Wraps around as `int64` does. -/
def wrapInt64 (n : Int) : Int := (n + 2 ^ 63) % 2 ^ 64 - 2 ^ 63

/-- The seconds of `time.Unix` since year 1. -/
def timeUnix (seconds : Int) : Int := wrapInt64 (seconds + 62135596800)

/-- `Time.Add` of a number of seconds, which saturates. -/
def timeAdd (time seconds : Int) : Int := max (-(2 ^ 63 - 1)) (min (2 ^ 63 - 1) (time + seconds))

def clockSkew : Int := 300

/-- Whether a document was created after `now`, the skew of clocks aside. -/
def inFuture (now createdAt : Int) : Bool := timeUnix now < timeAdd (timeUnix createdAt) (-clockSkew)

def validateTimes (tx : Transaction) (now : Int) : Except GoError Unit :=
  if inFuture now tx.createdAt then .error (.new "manifest is dated in the future")
  else if timeUnix tx.expiresAt ≤ timeUnix now then .error (.new "manifest has expired")
  else .ok ()

/-! ## References -/

def validateManifestObject (object : Object) (expectedKind architecture : String) : Except GoError Unit :=
  let channel := stringAt object "channel"
  let architectures := stringSlicePreserve object "architectures"
  if numberField object "schemaVersion" ≠ 1 then
    .error (.new "referenced manifest schema version is unsupported")
  else if stringAt object "lane" ≠ expectedKind then .error (.errorf "%s manifest lane is invalid" [expectedKind])
  else if expectedKind = "system" ∧ isChannel channel = false then
    .error (.new "system manifest channel is invalid")
  else if expectedKind = "opr" ∧ channel ≠ "stable" ∧ channel ≠ "quarantine" then
    .error (.new "OPR manifest channel is invalid")
  else if architectures.all (fun a => a = "x86_64" || a = "aarch64") = false then
    .error (.new "referenced manifest architecture is invalid")
  else if architecture ∉ architectures then
    .error (.errorf "%s manifest does not support architecture %s" [expectedKind, architecture])
  else if policySupported object = false then .error (.new "referenced manifest policy is unsupported")
  else
    match approvedChangelog object with
    | none => .error (.new "referenced manifest changelog approval is incomplete")
    | some changelog =>
      match validateCohortDigests changelog with
      | .error e => .error (.wrap "referenced manifest" e)
      | .ok () =>
        if arrayField object "packageChunks" = none then
          .error (.new "referenced manifest package chunks are missing")
        else if numberFieldOK object "packageCount" = none then
          .error (.new "referenced manifest package count is missing")
        else .ok ()

/-- The times a fetched manifest must have; `name` is what errors call it. -/
def validateDocumentTimes (object : Object) (name : String) (createdNow expiresNow : Int) : Except GoError Unit :=
  let (created, hasCreated) := int64Field object "createdAt"
  let (expires, hasExpires) := int64Field object "expiresAt"
  if hasCreated = false ∨ inFuture createdNow created = true then
    .error (.new (name ++ " is dated in the future or missing creation time"))
  else if hasExpires = false ∨ expires ≤ 0 ∨ expiresNow ≥ expires then
    .error (.new (name ++ " is expired or missing expiry"))
  else .ok ()

section
variable (literal : List Char → Option (List Char)) (sha256 : Bytes → Hash.Digest) (client : ManifestClient)
  (env : Env)

def fetchReference (place : Nat) (ref : ManifestRef) (expectedKind : String) : Except GoError RawManifest := do
  if ref.url = "" ∨ isSha256 ref.digest = false then
    .error (.errorf "%s manifest reference is incomplete" [expectedKind])
  else
    let doc ← (fetchSignedAt literal sha256 client env place ref.url ref.signatureUrl maxManifestBytes).mapError
      (.wrap ("verify " ++ expectedKind ++ " manifest"))
    if doc.document.digest ≠ lowerText ref.digest then
      .error (.errorf "%s manifest digest does not match resolved transaction" [expectedKind])
    else
      let kind := stringAt doc.object "kind"
      if kind ≠ expectedKind ∧ ¬(expectedKind = "rollback-control" ∧ kind = "rollback") then
        .error (.errorf "expected %s manifest, got %q" [expectedKind, kind])
      else
        validateDocumentTimes doc.object (expectedKind ++ " manifest") (env.now place) (env.now (place + 1))
        validateManifestObject doc.object expectedKind client.architecture
        if ref.channel ≠ "" ∧ stringAt doc.object "channel" ≠ ref.channel then
          .error (.errorf "%s manifest channel differs from reference" [expectedKind])
        else .ok doc

def fetchReferenceAny (place : Nat) (ref : ManifestRef) : Except GoError RawManifest := do
  if ref.url = "" ∨ isSha256 ref.digest = false then .error (.new "recovery target reference is incomplete")
  else
    let doc ← (fetchSignedAt literal sha256 client env place ref.url ref.signatureUrl maxManifestBytes).mapError
      (.wrap "verify recovery target")
    if doc.document.digest ≠ lowerText ref.digest then
      .error (.new "recovery target digest does not match reference")
    else
      let kind := stringAt doc.object "kind"
      if kind ≠ "system" ∧ kind ≠ "opr" ∧ kind ≠ "resolved-transaction" then
        .error (.errorf "invalid recovery target kind %q" [kind])
      else
        validateDocumentTimes doc.object "recovery target" (env.now place) (env.now (place + 1))
        .ok doc

/-! ## URLs of a transaction -/

/-- `path.Clean`, of the components of a path. -/
def cleanComponents (rooted : Bool) : List (List Char) → List (List Char) → List (List Char)
  | out, [] => out.reverse
  | out, component :: rest =>
    if component = [] ∨ component = ['.'] then cleanComponents rooted out rest
    else if component = ['.', '.'] then
      match out with
      | last :: before =>
        if last = ['.', '.'] then cleanComponents rooted (component :: out) rest
        else cleanComponents rooted before rest
      | [] => cleanComponents rooted (if rooted then [] else [component]) rest
    else cleanComponents rooted (component :: out) rest

def joinPath : List (List Char) → List Char
  | [] => []
  | [component] => component
  | component :: rest => component ++ '/' :: joinPath rest

def pathClean (path : List Char) : List Char :=
  let rooted := path.head? = some '/'
  let cleaned := joinPath (cleanComponents rooted [] (splitSlash path))
  if rooted then '/' :: cleaned else if cleaned = [] then ['.'] else cleaned

def pathDir (path : List Char) : List Char := pathClean (path.reverse.dropWhile (· ≠ '/')).reverse

/-- `strings.TrimSuffix` of a slash. -/
def trimSlash (path : List Char) : List Char := if path.getLast? = some '/' then path.dropLast else path

/-- A URL of the manifest's origin that is no pointer. -/
def validatePinnedUrl (manifestUrl : String) (mutable : GoError) (candidate : String) : Except GoError Unit := do
  if mutableURL literal candidate then .error mutable
  else
    validateURL literal candidate (isPlainHTTP manifestUrl)
    validateSameOrigin literal manifestUrl candidate

/-- The path of a URL, empty where it is none. -/
def urlPath (url : String) : List Char := ((urlParse literal (goBytes url)).map GoUrl.path).getD []

/-- `namePattern`. -/
def isRepositoryName (name : String) : Bool :=
  match name.toList with
  | [] => false
  | c :: cs =>
    ('a' ≤ c && c ≤ 'z') && cs.length ≤ 31 &&
      cs.all fun d => ('a' ≤ d && d ≤ 'z') || ('0' ≤ d && d ≤ '9') || d = '_' || d = '-'

def validateRepositoryURL (manifestUrl : String) (tx : Transaction) (repo : Repository) : Except GoError Unit := do
  if isRepositoryName repo.name = false ∨ repo.architecture ≠ tx.architecture ∨
      isSha256 repo.snapshotDigest = false then
    .error (.errorf "repository %q has invalid identity or snapshot digest" [repo.name])
  else if repo.dbUrl = "" ∨ repo.signatureUrl = "" ∨ repo.packageBaseUrl = "" then
    .error (.errorf "repository %q is missing immutable public URLs" [repo.name])
  else
    [repo.dbUrl, repo.signatureUrl, repo.packageBaseUrl].forM
      (validatePinnedUrl literal manifestUrl (.errorf "repository %q URL is mutable" [repo.name]))
    let db := urlPath literal repo.dbUrl
    if [".db", ".db.tar.gz", ".db.tar.zst"].any (fun suffix => suffix.toList.isSuffixOf db) = false then
      .error (.errorf "repository %q database URL is not an Arch database" [repo.name])
    else if urlPath literal repo.signatureUrl ≠ db ++ ".sig".toList ∨
        pathDir db ≠ trimSlash (urlPath literal repo.packageBaseUrl) then
      .error (.errorf "repository %q database/signature/base URLs do not match" [repo.name])
    else .ok ()

/-- A reference of the manifest's origin, and its signature with it. -/
def validateReferenceOrigin (manifestUrl : String) (ref : ManifestRef) : Except GoError Unit := do
  validateSameOrigin literal manifestUrl ref.url
  if ref.signatureUrl ≠ "" then validateSameOrigin literal manifestUrl ref.signatureUrl else .ok ()

def validateChunkURL (manifestUrl : String) (chunk : PackageChunk) : Except GoError Unit :=
  validatePinnedUrl literal manifestUrl (.new "package chunk URL is mutable") chunk.url

def validateTransactionURL (manifestUrl : String) (tx : Transaction) : Except GoError Unit := do
  validateURL literal manifestUrl client.allowHTTP
  [tx.systemRef, tx.oprRef].forM (validateReferenceOrigin literal manifestUrl)
  tx.rollbackRef.toList.forM (validateReferenceOrigin literal manifestUrl)
  tx.repositories.forM (validateRepositoryURL literal manifestUrl tx)
  tx.packageChunks.forM (validateChunkURL literal manifestUrl)

end

/-! ## Lane manifests -/

/-- A field of a manifest, or else of its identity. -/
def identityField (object : Object) (key : String) : String :=
  if stringAt object key = "" then stringAt ((objectField object "identity").getD []) key else stringAt object key

def validateChild (tx : Transaction) (system opr : RawManifest) : Except GoError Unit :=
  let systemChannel := stringAt system.object "channel"
  let oprChannel := stringAt opr.object "channel"
  if stringAt system.object "kind" ≠ "system" then .error (.new "system reference is not a system manifest")
  else if stringAt opr.object "kind" ≠ "opr" then .error (.new "OPR reference is not an OPR manifest")
  else if systemChannel ≠ tx.channel ∨ tx.systemRef.channel ≠ tx.channel then
    .error (.new "system manifest channel is incompatible with transaction")
  else if (oprChannel ≠ "stable" ∧ ¬(tx.channel ≠ "stable" ∧ oprChannel = "quarantine")) ∨
      tx.oprRef.channel ≠ oprChannel then
    .error (.new "OPR manifest is not in stable channel")
  else if uint64Field system.object "sequence" ≠ some tx.systemRef.sequence then
    .error (.new "system manifest sequence is incompatible with transaction")
  else if uint64Field opr.object "sequence" ≠ some tx.oprRef.sequence then
    .error (.new "OPR manifest sequence is incompatible with transaction")
  else if tx.identity.version ≠ "" ∧ identityField system.object "version" ≠ tx.identity.version then
    .error (.new "system manifest version is incompatible with transaction")
  else if tx.identity.generation ≠ "" ∧ identityField opr.object "generation" ≠ tx.identity.generation then
    .error (.new "OPR manifest generation is incompatible with transaction")
  else if tx.compatibility.systemManifestDigest ≠ "" ∧
      tx.compatibility.systemManifestDigest ≠ tx.systemRef.digest then
    .error (.new "system compatibility digest mismatch")
  else if tx.compatibility.oprManifestDigest ≠ "" ∧ tx.compatibility.oprManifestDigest ≠ tx.oprRef.digest then
    .error (.new "OPR compatibility digest mismatch")
  else .ok ()

/-! ## Recovery -/

/-- What two transactions must agree on of a repository. -/
def Repository.source (r : Repository) : String × String × String × String × String :=
  (r.name, r.snapshotDigest, r.dbUrl, r.signatureUrl, r.packageBaseUrl)

def validateRecoveryTarget (tx : Transaction) (raw : RawManifest) (ref : ManifestRef) (architecture : String) :
    Except GoError Unit := do
  if ref.sequence = 0 ∨ tx.recovery.authorized = false ∨ tx.recovery.reason = "" then
    .error (.new "recovery authorization is incomplete")
  else if stringAt raw.object "kind" ≠ "resolved-transaction" then
    .error (.new "recovery target must be a resolved transaction")
  else
    let target ← (parseTransaction raw).mapError (.wrap "parse recovery target")
    let target ← selectArchitecture architecture target
    if ref.channel ≠ "" ∧ target.channel ≠ ref.channel then
      .error (.new "recovery target channel differs from reference")
    else if target.systemRef.digest ≠ tx.systemRef.digest ∨ target.oprRef.digest ≠ tx.oprRef.digest ∨
        target.repositories.length ≠ tx.repositories.length then
      .error (.new "recovery target does not match selected system/OPR snapshots")
    else if target.packageCount ≠ tx.packageCount ∨ target.packageChunks.length ≠ tx.packageChunks.length then
      .error (.new "recovery target package set differs from transaction")
    else if tx.repositories.map Repository.source ≠ target.repositories.map Repository.source then
      .error (.new "recovery target repository set differs from transaction")
    else if tx.packageChunks ≠ target.packageChunks then
      .error (.new "recovery target package chunks differ from transaction")
    else .ok ()

/-! ## resolveAt -/

section
variable (literal : List Char → Option (List Char)) (sha256 : Bytes → Hash.Digest) (client : ManifestClient)
  (env : Env)

/-- The target a transaction recovers to, fetched and checked. -/
def resolveRollback (tx : Transaction) : Except GoError Unit :=
  match tx.rollbackRef with
  | none => .ok ()
  | some ref => do
    let rollback ← fetchReferenceAny literal sha256 client env 6 ref
    validateRecoveryTarget tx rollback ref client.architecture

def resolveAt (manifestUrl signatureUrl : String) : Except GoError Transaction := do
  let root ← fetchSignedAt literal sha256 client env 0 manifestUrl signatureUrl maxManifestBytes
  let tx ← parseTransaction root
  let tx := { tx with raw := root.document.canonical, digest := root.document.digest }
  if client.expectedChannel ≠ "" ∧ tx.channel ≠ client.expectedChannel then
    .error (.errorf "manifest channel %q does not match expected channel %q" [tx.channel, client.expectedChannel])
  else
    let tx ← selectArchitecture client.architecture tx
    validateTransactionURL literal client manifestUrl tx
    if tx.systemRef.url = "" ∨ tx.oprRef.url = "" then
      .error (.new "resolved transaction must reference signed system and OPR manifests")
    else
      let system ← fetchReference literal sha256 client env 2 tx.systemRef "system"
      let opr ← fetchReference literal sha256 client env 4 tx.oprRef "opr"
      validateChild tx system opr
      resolveRollback literal sha256 client env tx
      validateTimes tx (env.now 8)
      .ok tx

end

end Omapkg.Client
