import Omapkg.Lib.Fallible
import Omapkg.Server.Cohorts
import Omapkg.Server.DependencyGraph
import Omapkg.Server.RebuildMembers
/-!
# Scope uploads

`cohortManifest` of `src/src/lib/server/cohorts.ts` and the upload of
`src/src/lib/server/cohort-scope-uploads.ts`: a cohort's members come in numbered
chunks, each checked against the catalog and kept in the order of its names. The
catalog is what its tables have.
-/

namespace Omapkg.Server.Scope

open Utf Json Fallible Arch
open Cohort (isIdentifier)
open Dependency (Actor humanMaintainer)
open Rebuild (UnitsLE)

/-! ## The catalog -/

/-- A `CatalogManifest`, of which `document` is the whole. -/
structure Policy where
  lane : Lane
  ownerArea : String
  upstreamUrl : String
  sourceKind : String
  architectures : List Architecture
  architectureExceptions : List Architecture
  document : Json JsString
  targeted : architectures ≠ []

/-- A package's current revision. -/
structure CatalogRecord where
  revision : Nat
  admittedRevision : Option Nat
  manifestJson : List Char
  manifestSha256 : String
  numbered : 1 ≤ revision

/-- A row of `requests`. -/
structure RequestRow where
  name : String
  upstreamUrl : String
  sourceKind : String
  area : String
  status : String

/-- A row of `revisions`; `fullVersion` is its `reviewedPackageVersion`, and `kinds`
counts the kinds of its approvals that stand. -/
structure RevisionRow where
  requestId : String
  manifestSha256 : String
  fullVersion : Except PolicyError String
  architectures : List Architecture
  kinds : Nat

/-- `policy` is `parseCatalogManifest` of a text, and `latest` the last revision of a request. -/
structure Catalog where
  packages : String → Option CatalogRecord
  policy : List Char → Except PolicyError Policy
  revisions : String → Option RevisionRow
  requests : String → Option RequestRow
  latest : String → String
  sha256 : List Char → String

/-- A revision with its request. -/
def Catalog.recipe (c : Catalog) (id : String) : Option (RevisionRow × RequestRow) := do
  let revision ← c.revisions id
  let request ← c.requests revision.requestId
  pure (revision, request)

/-! ## Members -/

inductive CohortCause where
  | newPackage | sourceUpdate | abi | staticLink | runtimeTransition | dependency | rebuild | security
  deriving DecidableEq

def CohortCause.text : CohortCause → String
  | newPackage => "new-package"
  | sourceUpdate => "source-update"
  | abi => "abi"
  | staticLink => "static-link"
  | runtimeTransition => "runtime-transition"
  | dependency => "dependency"
  | rebuild => "rebuild"
  | security => "security"

/-- A member as a maintainer sends it. -/
structure MemberInput where
  pkgbase : String
  catalogRevision : Nat
  recipeRevisionId : Option String
  cause : CohortCause
  reason : JsString

structure MemberRecipe where
  id : String
  manifestSha256 : String
  fullVersion : String
  requestId : String

structure CohortMember where
  pkgbase : String
  catalogRevision : Nat
  catalogSha256 : String
  policy : Policy
  recipe : Option MemberRecipe
  cause : CohortCause
  reason : JsString

def MemberRecipe.json (r : MemberRecipe) : Json JsString := jsObject [
  ("id", jsText r.id), ("manifestSha256", jsText r.manifestSha256), ("fullVersion", jsText r.fullVersion),
  ("requestId", jsText r.requestId)]

def CohortMember.json (m : CohortMember) : Json JsString := jsObject [
  ("pkgbase", jsText m.pkgbase), ("catalogRevision", jsNat m.catalogRevision),
  ("catalogSha256", jsText m.catalogSha256), ("policy", m.policy.document),
  ("recipe", orNull MemberRecipe.json m.recipe), ("cause", jsText m.cause.text), ("reason", .str m.reason)]

/-- `text`: what it makes of a string that it takes. -/
def reasonText (value : JsString) : Option JsString :=
  if trim value = [] ∨ (trim value).length > 2000 ∨ (trim value).any isControl = true then none else some (trim value)

/-- `scopeSchema`, of one member. -/
def memberInput (m : MemberInput) : Except PolicyError MemberInput :=
  match reasonText m.reason with
  | some reason =>
    if isPackageName m.pkgbase.toList = true ∧ 1 ≤ m.catalogRevision ∧ m.recipeRevisionId.all isIdentifier = true then
      .ok { m with reason }
    else reject "Check cohort title, lane, pinned snapshots and enumerated members (1–512). Use chunked scope uploads for larger cohorts." 400
  | none =>
    reject "Check cohort title, lane, pinned snapshots and enumerated members (1–512). Use chunked scope uploads for larger cohorts." 400

def memberRecipe (c : Catalog) (pkgbase : String) (policy : Policy) (id : String) : Except PolicyError MemberRecipe :=
  match c.recipe id with
  | none => reject s!"{pkgbase}: recipe must match the current owned identity, source and area." 409
  | some (revision, request) =>
    if id ≠ c.latest revision.requestId ∨ request.name ≠ pkgbase ∨ request.upstreamUrl ≠ policy.upstreamUrl ∨
        request.sourceKind ≠ policy.sourceKind ∨ request.area ≠ policy.ownerArea then
      reject s!"{pkgbase}: recipe must match the current owned identity, source and area." 409
    else if Rebuild.sorted (revision.architectures.map Architecture.text).eraseDups ≠ policy.architectures.map Architecture.text then
      reject s!"{pkgbase}: recipe targets do not match the catalog policy." 409
    else do
      let fullVersion ← revision.fullVersion
      pure ⟨id, revision.manifestSha256, fullVersion, revision.requestId⟩

/-- What the loop of `cohortManifest` does with a member. -/
def cohortMember (c : Catalog) (actor : Option Actor) (lane : Lane) (m : MemberInput) : Except PolicyError CohortMember :=
  match c.packages m.pkgbase with
  | none => reject s!"{m.pkgbase}: select the current catalog policy revision." 409
  | some record =>
    if record.revision ≠ m.catalogRevision then reject s!"{m.pkgbase}: select the current catalog policy revision." 409
    else do
      let policy ← c.policy record.manifestJson
      if c.sha256 record.manifestJson ≠ record.manifestSha256 then
        reject s!"{m.pkgbase}: catalog integrity check failed." 409
      else do
        let _ ← humanMaintainer actor policy.ownerArea
        if lane = .opr ∧ policy.lane ≠ .opr then reject s!"{m.pkgbase} belongs to a versioned system release." 409
        else do
          let recipe ← match m.recipeRevisionId with
            | none => pure none
            | some id => some <$> memberRecipe c m.pkgbase policy id
          pure ⟨m.pkgbase, record.revision, record.manifestSha256, policy, recipe, m.cause, m.reason⟩

def byName (a b : MemberInput) : Prop := UnitsLE a.pkgbase b.pkgbase

instance : DecidableRel byName := fun _ _ => inferInstanceAs (Decidable (UnitsLE _ _))

/-- `cohortManifest`, of metadata that was taken before. -/
def cohortManifest (c : Catalog) (actor : Option Actor) (lane : Lane) (input : List MemberInput) :
    Except PolicyError (List CohortMember) := do
  let _ ← humanMaintainer actor ""
  let requested ← input.mapM memberInput
  if ¬(requested.map (·.pkgbase)).Nodup then reject "Cohort members cannot repeat." 400
  else (requested.insertionSort byName).mapM (cohortMember c actor lane)

/-! ## Uploads -/

structure ChunkRow where
  index : Nat
  start : Nat
  count : Nat
  first : String
  last : String
  membersJson : List Char
  sha256 : String

structure EntryRow where
  chunkIndex : Nat
  ordinal : Nat
  member : CohortMember

/-- A row of `cohort_scope_uploads` with its chunks and entries. -/
structure ScopeUpload where
  lane : Lane
  expectedRevision : Option Nat
  baseSha256 : Option String
  expectedCount : Nat
  nextChunk : Nat
  memberCount : Nat
  lastPkgbase : String
  sealedRevision : Option Nat
  createdBy : String
  chunks : List ChunkRow
  entries : List EntryRow

/-- What `beginCohortScope` inserts. -/
def ScopeUpload.fresh (lane : Lane) (expectedRevision : Option Nat) (baseSha256 : Option String) (expectedCount : Nat)
    (createdBy : String) : ScopeUpload :=
  ⟨lane, expectedRevision, baseSha256, expectedCount, 0, 0, "", none, createdBy, [], []⟩

def EntryRow.requestId (e : EntryRow) : Option String := e.member.recipe.map (·.requestId)

/-- What the keys of `cohort_scope_entries` ask. -/
def EntriesUnique (entries : List EntryRow) : Prop :=
  (entries.map (·.member.pkgbase)).Nodup ∧ (entries.map (·.ordinal)).Nodup ∧ (entries.filterMap EntryRow.requestId).Nodup

instance : DecidablePred EntriesUnique := fun _ => inferInstanceAs (Decidable (_ ∧ _ ∧ _))

/-- `cohortConflict`. -/
def conflict {α : Type} : Except PolicyError α :=
  reject "Cohort, review or publication state changed. Refresh before retrying; already published builds need new revisions." 409

/-- The batch of an append. -/
def appendBatch (u : ScopeUpload) (index : Nat) (first last : String) (members : List CohortMember) (json : List Char)
    (hash : String) : ScopeUpload :=
  { u with
    nextChunk := u.nextChunk + 1
    memberCount := u.memberCount + members.length
    lastPkgbase := last
    chunks := u.chunks ++ [⟨index, u.memberCount, members.length, first, last, json, hash⟩]
    entries := u.entries ++ members.mapIdx fun key member => ⟨index, u.memberCount + key, member⟩ }

def membersJson (members : List CohortMember) : List Char := canonicalJson (.arr (members.map CohortMember.json))

def maxScopeBytes : Nat := 1024 * 1024

def appendCohortScope (c : Catalog) (actor : Option Actor) (u : ScopeUpload) (index : Nat) (input : List MemberInput) :
    Except PolicyError ScopeUpload := do
  let reviewer ← humanMaintainer actor ""
  if u.createdBy ≠ reviewer.id then reject "Resume a scope upload created by your own account." 403
  else if index ≥ 4096 ∨ input = [] ∨ input.length > 100 then
    reject "Upload 1–100 members in each numbered scope chunk." 400
  else do
    let members ← cohortManifest c actor u.lane input
    let json := membersJson members
    let hash := c.sha256 json
    if (encode json).length > maxScopeBytes then reject "Scope chunk exceeds one MiB. Reduce its member count." 413
    else match u.chunks.find? (·.index = index) with
      | some previous =>
        if previous.sha256 ≠ hash then
          reject "An uploaded scope chunk cannot change. Start a new scope proposal." 409
        else .ok u
      | none =>
        let first := (members.head?.map (·.pkgbase)).getD ""
        let last := (members.getLast?.map (·.pkgbase)).getD ""
        if u.sealedRevision ≠ none ∨ index ≠ u.nextChunk ∨ UnitsLE first u.lastPkgbase ∨
            u.memberCount + members.length > u.expectedCount then
          reject "Append the next chunk in package-name order without exceeding the complete member count." 409
        else
          let next := appendBatch u index first last members json hash
          if EntriesUnique next.entries then .ok next else conflict

/-! ## Coverage -/

/-- The state of the loop over the chunks of `sealCohortScope`: index, count and last name. -/
abbrev Walk := Nat × Nat × String

def walkChunk (w : Walk) (chunk : ChunkRow) : Except PolicyError Walk :=
  if chunk.index ≠ w.1 ∨ chunk.start ≠ w.2.1 ∨ UnitsLE chunk.first w.2.2 then
    reject "Cohort chunk index is incomplete or unordered." 409
  else .ok (w.1 + 1, w.2.1 + chunk.count, chunk.last)

/-- What `sealCohortScope` asks of an upload before it makes a manifest of it. -/
def sealCoverage (u : ScopeUpload) : Except PolicyError Unit :=
  if u.memberCount ≠ u.expectedCount then reject "Upload every declared cohort member before sealing scope." 409
  else do
    let walk ← u.chunks.foldlM walkChunk (0, 0, "")
    let areas := (u.entries.map (·.member.policy.ownerArea)).eraseDups
    let targets := (u.entries.flatMap (·.member.policy.architectures)).eraseDups
    if walk.2.1 ≠ u.expectedCount ∨ u.chunks.length ≠ u.nextChunk ∨ areas = [] ∨ targets = [] then
      reject "Cohort chunk coverage is incomplete." 409
    else pure ()

end Omapkg.Server.Scope
