import Omapkg.Client.GoJson
import Omapkg.Lib.Hash
/-!
# Transactions

The resolved transaction of `src/omarchy/manifest-client/client.go`: how a
signed manifest's object becomes a `Transaction`, and the checks of its fields.
-/

namespace Omapkg.Client

open Json Utf

/-! ## Types -/

structure Identity where
  version : String
  generation : String
  deriving DecidableEq

structure Parent where
  digest : String
  sequence : Nat
  deriving DecidableEq

structure ManifestRef where
  url : String
  digest : String
  signatureUrl : String
  channel : String
  sequence : Nat
  version : String
  generation : String
  deriving DecidableEq

structure Repository where
  name : String
  architecture : String
  snapshotDigest : String
  dbUrl : String
  signatureUrl : String
  packageBaseUrl : String
  deriving DecidableEq

structure Compatibility where
  systemManifestDigest : String
  systemSnapshotDigests : List String
  oprManifestDigest : String
  oprSnapshotDigest : String
  deriving DecidableEq

structure Recovery where
  fromDigest : String
  target : Option ManifestRef
  authorized : Bool
  reason : String
  constraints : List String
  deriving DecidableEq

structure PackageChunk where
  url : String
  digest : String
  size : Int
  index : Int
  count : Int
  packageCount : Int
  deriving DecidableEq

/-- A transaction; `raw` and `digest` are those of its signed document. -/
structure Transaction where
  kind : String
  lane : String
  channel : String
  releaseId : String
  architecture : String
  architectures : List String
  identity : Identity
  parent : Parent
  createdAt : Int
  expiresAt : Int
  sequence : Nat
  repositories : List Repository
  compatibility : Compatibility
  recovery : Recovery
  systemRef : ManifestRef
  oprRef : ManifestRef
  rollbackRef : Option ManifestRef
  packageChunks : List PackageChunk
  packageCount : Int
  digest : String
  raw : Bytes
  deriving DecidableEq

structure SignedDocument where
  raw : Bytes
  canonical : Bytes
  digest : String
  deriving DecidableEq

structure RawManifest where
  object : Object
  document : SignedDocument
  signature : Bytes
  signatureUrl : String

/-! ## Patterns -/

def sha256Hex (sha256 : Bytes → Hash.Digest) (data : Bytes) : String := (sha256 data).hex

/-- `sha256Pattern`. -/
def isSha256 (s : String) : Bool := Hash.isHexDigest s.toList

/-- `channelPattern`. -/
def isChannel (s : String) : Bool := s = "stable" || s = "rc" || s = "edge"

/-! ## Reading -/

/-- A string field, `""` where it is missing. -/
def stringAt (object : Object) (key : String) : String := (stringField object key).getD ""

/-- A string field with a second name, read where the first is empty. -/
def stringAtOr (object : Object) (key other : String) : String :=
  if stringAt object key = "" then stringAt object other else stringAt object key

def parseManifestRef (object : Object) : ManifestRef where
  url := if stringAtOr object "url" "manifestUrl" = "" then stringAt object "manifestURL"
    else stringAtOr object "url" "manifestUrl"
  digest := stringAtOr object "digest" "manifestSha256"
  signatureUrl := stringAtOr object "signatureUrl" "signatureURL"
  channel := stringAt object "channel"
  sequence := (uint64Field object "sequence").getD 0
  version := stringAt object "version"
  generation := stringAt object "generation"

def parseIdentity (o : Object) : Identity :=
  match objectField o "identity" with
  | some identity => ⟨stringAt identity "version", stringAt identity "generation"⟩
  | none => ⟨"", ""⟩

def parseParent (o : Object) : Parent :=
  match objectField o "parent" with
  | some parent => ⟨stringAt parent "digest", (uint64Field parent "sequence").getD 0⟩
  | none => ⟨"", 0⟩

def parseCompatibility (o : Object) : Compatibility :=
  match objectField o "compatibility" with
  | some c =>
    { systemManifestDigest := stringAt c "systemManifestDigest"
      systemSnapshotDigests := stringSliceField c "systemSnapshotDigests"
      oprManifestDigest := stringAt c "oprManifestDigest"
      oprSnapshotDigest := stringAt c "oprSnapshotDigest" }
  | none => ⟨"", [], "", ""⟩

def parseRecovery (o : Object) : Recovery :=
  match objectField o "recovery" with
  | some r =>
    { fromDigest := stringAt r "fromDigest"
      target := (objectField r "target").map parseManifestRef
      authorized := (boolField r "authorized").getD false
      reason := stringAt r "reason"
      constraints := stringSlicePreserve r "constraints" }
  | none => ⟨"", none, false, "", []⟩

/-- The recovery target, unless the manifest names a rollback control. -/
def parseRollbackRef (o : Object) : Option ManifestRef :=
  match objectField o "rollbackControl" with
  | some rollback => some (parseManifestRef rollback)
  | none => (parseRecovery o).target

/-- A lane's reference under either of its names; an empty one is missing. -/
def parseLaneRef (o : Object) (key other : String) : ManifestRef :=
  match objectField o key, objectField o other with
  | some ref, _ => parseManifestRef ref
  | none, some ref => parseManifestRef ref
  | none, none => ⟨"", "", "", "", 0, "", ""⟩

def parseRepository (object : Object) : Repository where
  name := stringAt object "name"
  architecture := stringAt object "architecture"
  snapshotDigest := stringAt object "snapshotDigest"
  dbUrl := stringAtOr object "dbUrl" "dbURL"
  signatureUrl := stringAtOr object "signatureUrl" "signatureURL"
  packageBaseUrl := stringAtOr object "packageBaseUrl" "packageBaseURL"

/-- The repository entries; `seen` are the names of those already read. -/
def parseRepositories (seen : List String) : List GoValue → Except GoError (List Repository)
  | [] => .ok []
  | .obj object :: values =>
    if (parseRepository object).name ∈ seen then
      .error (.errorf "duplicate repository %q" [(parseRepository object).name])
    else
      match parseRepositories ((parseRepository object).name :: seen) values with
      | .ok repositories => .ok (parseRepository object :: repositories)
      | .error e => .error e
  | _ :: _ => .error (.new "repository entry is not an object")

def parseChunk (object : Object) : PackageChunk where
  url := stringAt object "url"
  digest := stringAt object "sha256"
  size := (int64Field object "size").1
  index := (numberFieldOK object "index").getD 0
  count := (numberFieldOK object "count").getD 0
  packageCount := (numberFieldOK object "packageCount").getD 0

def parseChunks : List GoValue → Except GoError (List PackageChunk)
  | [] => .ok []
  | .obj object :: values =>
    match parseChunks values with
    | .ok chunks => .ok (parseChunk object :: chunks)
    | .error e => .error e
  | _ :: _ => .error (.new "package chunk entry is not an object")

/-- The chunk index, where the manifest has one. -/
def parseChunkIndex (o : Object) : Except GoError (Option (List PackageChunk)) :=
  match o.lookup "packageChunks" with
  | none => .ok none
  | some (.arr values) =>
    match parseChunks values with
    | .ok chunks => .ok (some chunks)
    | .error e => .error e
  | some _ => .error (.new "manifest package chunk index is invalid")

/-! ## Checks -/

def validateCohortDigestsFrom (seen : List String) : List GoValue → Except GoError Unit
  | [] => .ok ()
  | .obj object :: values =>
    if stringAt object "cohortId" = "" ∨ stringAt object "cohortId" ∈ seen then
      .error (.new "cohort changelog identity is invalid")
    else if (numberFieldOK object "revision").getD 0 < 1 then
      .error (.new "cohort changelog revision is invalid")
    else if isSha256 (stringAt object "digest") = false then
      .error (.new "cohort changelog digest is invalid")
    else validateCohortDigestsFrom (stringAt object "cohortId" :: seen) values
  | _ :: _ => .error (.new "cohort changelog digest is invalid")

def validateCohortDigests (changelog : Object) : Except GoError Unit :=
  match arrayField changelog "cohortDigests" with
  | some values => validateCohortDigestsFrom [] values
  | none => .error (.new "cohort changelog digests are missing")

def policyVersion : String := "distribution-release-v1"

/-- Whether the object names the one policy there is. -/
def policySupported (o : Object) : Bool :=
  match objectField o "policy" with
  | some policy => numberField policy "schemaVersion" = 1 && stringField policy "version" = some policyVersion
  | none => false

/-- The changelog of an object, where it is digested and approved. -/
def approvedChangelog (o : Object) : Option Object :=
  match objectField o "changelog" with
  | some changelog =>
    if isSha256 (stringAt changelog "sha256") = true ∧ stringAt changelog "approvedBy" ≠ "" then some changelog
    else none
  | none => none

/-- A reference that names its manifest, its signature, a channel and a
sequence. -/
def ManifestRef.complete (ref : ManifestRef) : Bool :=
  ref.url ≠ "" && ref.signatureUrl ≠ "" && ref.channel ≠ "" && ref.sequence ≠ 0 && isSha256 ref.digest

def PackageChunk.valid (chunk : PackageChunk) : Bool :=
  chunk.url ≠ "" && isSha256 chunk.digest && 0 < chunk.size && 0 ≤ chunk.index && 0 < chunk.count &&
    chunk.index < chunk.count && 0 ≤ chunk.packageCount

def validateTransactionFields (tx : Transaction) (digest : String) : Except GoError Unit :=
  if tx.releaseId = "" ∨ tx.architectures = [] then
    .error (.new "manifest release or architecture is invalid")
  else if tx.architectures.all (fun a => a = "x86_64" || a = "aarch64") = false then
    .error (.new "manifest architecture is invalid")
  else if tx.createdAt ≤ 0 ∨ tx.expiresAt ≤ tx.createdAt ∨ tx.sequence = 0 then
    .error (.new "manifest time or sequence fields are invalid")
  else if isSha256 digest = false ∨ (tx.parent.digest ≠ "" ∧ isSha256 tx.parent.digest = false) then
    .error (.new "manifest digest fields are invalid")
  else if tx.lane ≠ "transaction" then .error (.new "resolved transaction lane is invalid")
  else if isChannel tx.channel = false then .error (.new "resolved transaction channel is invalid")
  else if tx.systemRef.complete = false ∨ tx.oprRef.complete = false then
    .error (.new "system and OPR manifest references are incomplete")
  else if tx.recovery.authorized = true ∧ tx.recovery.constraints = [] then
    .error (.new "authorized recovery constraints are missing")
  else if tx.packageCount < 0 then .error (.new "manifest package count is invalid")
  else if tx.packageChunks.all PackageChunk.valid = false then
    .error (.new "manifest package chunk is invalid")
  else .ok ()

/-- The transaction of an object, before its fields are checked. -/
def readTransaction (o : Object) (repositories : List Repository) (chunks : List PackageChunk)
    (packageCount : Int) : Transaction where
  kind := stringAt o "kind"
  lane := stringAt o "lane"
  channel := stringAt o "channel"
  releaseId := stringAt o "releaseId"
  architecture := stringAt o "architecture"
  architectures :=
    if stringSlicePreserve o "architectures" = [] ∧ stringAt o "architecture" ≠ "" then
      [stringAt o "architecture"]
    else stringSlicePreserve o "architectures"
  identity := parseIdentity o
  parent := parseParent o
  createdAt := (int64Field o "createdAt").1
  expiresAt := (int64Field o "expiresAt").1
  sequence := (uint64Field o "sequence").getD 0
  repositories := repositories
  compatibility := parseCompatibility o
  recovery := parseRecovery o
  systemRef := parseLaneRef o "systemManifest" "system"
  oprRef := parseLaneRef o "oprManifest" "opr"
  rollbackRef := parseRollbackRef o
  packageChunks := chunks
  packageCount := packageCount
  digest := ""
  raw := []

def parseTransaction (raw : RawManifest) : Except GoError Transaction := do
  let o := raw.object
  if numberField o "schemaVersion" ≠ 1 then .error (.new "unsupported manifest schema version")
  else if stringField o "kind" ≠ some "resolved-transaction" then
    .error (.new "manifest is not a resolved transaction")
  else if ((arrayField o "repositories").getD []) = [] then
    .error (.new "resolved transaction has no repositories")
  else
    let repositories ← parseRepositories [] ((arrayField o "repositories").getD [])
    let index ← parseChunkIndex o
    match index, numberFieldOK o "packageCount" with
    | some chunks, some packageCount =>
      if policySupported o = false then .error (.new "manifest policy is unsupported")
      else
        match approvedChangelog o with
        | none => .error (.new "manifest changelog approval is incomplete")
        | some changelog =>
          validateCohortDigests changelog
          let tx := readTransaction o repositories chunks packageCount
          validateTransactionFields tx raw.document.digest
          .ok tx
    | _, _ => .error (.new "manifest package chunk index is missing")

def selectArchitecture (target : String) (tx : Transaction) : Except GoError Transaction :=
  if target ∉ tx.architectures then
    .error (.errorf "signed transaction does not support architecture %s" [target])
  else if tx.repositories.filter (fun r => r.architecture = target) = [] then
    .error (.errorf "signed transaction has no repositories for architecture %s" [target])
  else
    .ok { tx with
      architecture := target
      repositories := tx.repositories.filter fun r => r.architecture = target }

/-- An architecture the transaction has repositories for gets those. -/
theorem selectArchitecture_ok {target : String} {tx : Transaction} (ha : target ∈ tx.architectures)
    (hr : tx.repositories.filter (fun r => r.architecture = target) ≠ []) :
    ∃ selected, selectArchitecture target tx = .ok selected ∧
      selected.repositories = tx.repositories.filter fun r => r.architecture = target := by
  refine ⟨{ tx with
    architecture := target
    repositories := tx.repositories.filter fun r => r.architecture = target }, ?_, rfl⟩
  rw [selectArchitecture, if_neg (not_not.mpr ha), if_neg hr]

end Omapkg.Client
