import Omapkg.Lib.Pool
import Omapkg.Server.ScopeTexts
/-!
# Scope uploads among others

`beginCohortScope`, `appendCohortScope` and `sealCohortScope` of
`src/src/lib/server/cohort-scope-uploads.ts` as programs over shared tables, with a
step for every query and every batch.
-/

namespace Omapkg.Server.Scope

open Utf Json Prog Arch
open Cohort (isIdentifier CohortPhase)
open Dependency (Actor humanMaintainer reviewReason)
open Rebuild (UnitsLE)

/-! ## Tables -/

structure ScopeRow where
  cohortId : String
  metadata : CohortMetadata
  upload : ScopeUpload

/-- A row of `cohorts`. -/
structure CohortHead where
  currentRevision : Nat
  eventSequence : Nat
  eventSha256 : Option String
  phase : CohortPhase

structure ScopeState where
  uploads : String → Option ScopeRow
  cohorts : String → Option CohortHead
  tables : String → CohortTables

/-- `ownerAreas` is `cohortOwnerAreas` of a stored manifest. -/
structure ScopeEnv where
  jsNumber : Numeral → Numeral
  sha256 : List Char → String
  ownerAreas : List Char → List String

def ScopeEnv.readers (env : ScopeEnv) : Readers (Json JsString) := jsonReaders env.jsNumber env.sha256

def ScopeState.setUpload (s : ScopeState) (id : String) (row : ScopeRow) : ScopeState :=
  { s with uploads := fun other => if other = id then some row else s.uploads other }

/-- What the keys of a cohort's tables ask. -/
def TablesUnique (t : CohortTables) : Prop :=
  (t.revisions.map (·.revision)).Nodup ∧ (t.chunks.map fun row => (row.revision, row.index)).Nodup ∧
    (t.members.map fun row => (row.revision, row.pkgbase)).Nodup ∧
    (t.members.filterMap fun row => row.ordinal.map fun ordinal => (row.revision, ordinal)).Nodup

instance : DecidablePred TablesUnique := fun _ => inferInstanceAs (Decidable (_ ∧ _ ∧ _ ∧ _))

/-! ## Begin -/

/-- `metadata` is what `parseCohortMetadata` makes of the one that is sent. -/
structure ScopeProposal where
  cohortId : String
  expectedRevision : Option Nat
  metadata : Except PolicyError CohortMetadata
  expectedCount : Nat
  proposalId : String

def CohortMetadata.json (m : CohortMetadata) : Json JsString := jsObject [
  ("title", .str m.title), ("lane", jsText m.lane.text), ("systemVersion", orNull jsText m.systemVersion),
  ("parentSnapshot", orNull jsText m.parentSnapshot), ("compatibleSystems", .arr (m.compatibleSystems.map jsText))]

/-- What the id of an upload is the digest of. -/
def proposalText (p : ScopeProposal) (base : Option String) (metadata : CohortMetadata) (actor : String) : List Char :=
  canonicalJson (jsObject [
    ("cohortId", jsText p.cohortId), ("expectedRevision", orNull jsNat p.expectedRevision), ("base", orNull jsText base),
    ("metadata", metadata.json), ("expectedCount", jsNat p.expectedCount), ("proposalId", jsText p.proposalId),
    ("actor", jsText actor)])

structure CurrentCohort where
  head : CohortHead
  record : ScopeRecord

def currentRecord (id : String) (s : ScopeState) : Option CurrentCohort := do
  let head ← s.cohorts id
  let record ← (s.tables id).revisions.find? (·.revision = head.currentRevision)
  pure ⟨head, record⟩

inductive ScopeAnswer where
  | begun (id : String) (row : ScopeRow)
  | appended (id : String) (index : Nat) (members : List CohortMember)
  | sealed (id : String) (revision : Nat)

abbrev ScopeProg := Prog ScopeState PolicyError

def ownUpload (reviewer : Actor) : Option ScopeRow → Except PolicyError ScopeRow
  | none => reject "Cohort scope upload not found." 404
  | some row =>
    if row.upload.createdBy ≠ reviewer.id then reject "Resume a scope upload created by your own account." 403 else .ok row

def scopeUpload (actor : Option Actor) (id : String) : ScopeProg ScopeRow := do
  let reviewer ← ofExcept (humanMaintainer actor "")
  let row ← read fun s => s.uploads id
  ofExcept (ownUpload reviewer row)

section
variable (env : ScopeEnv)

def foundCohort : Option CurrentCohort → Except PolicyError CurrentCohort
  | none => reject "Build cohort not found." 404
  | some current =>
    if env.sha256 current.record.manifestJson ≠ current.record.manifestSha256 then
      reject "Cohort manifest integrity check failed." 409
    else .ok current

def getCohort (id : String) : ScopeProg CurrentCohort := do
  let row ← read (currentRecord id)
  ofExcept (foundCohort env row)

def currentCohort (id : String) : ScopeProg (Option CurrentCohort) := do
  let isThere ← read fun s => (s.cohorts id).isSome
  if isThere = true then some <$> getCohort env id else pure none

/-- `scopeAuthority`, of the areas of a manifest. -/
def scopeAuthority (actor : Option Actor) (areas : List String) : Except PolicyError Actor := do
  let reviewer ← humanMaintainer actor ""
  let _ ← areas.mapM (humanMaintainer (some reviewer))
  pure reviewer

def priorAreas (current : Option CurrentCohort) : List String :=
  (current.map fun c => env.ownerAreas c.record.manifestJson).getD []

/-- `INSERT … ON CONFLICT(id) DO NOTHING`. -/
def insertUpload (id : String) (row : ScopeRow) (s : ScopeState) : ScopeState :=
  if (s.uploads id).isSome then s else s.setUpload id row

def proposed (p : ScopeProposal) (base : Option String) (metadata : CohortMetadata) (createdBy : String) : ScopeRow :=
  ⟨p.cohortId, metadata, .fresh metadata.lane p.expectedRevision base p.expectedCount createdBy⟩

def proposalBase (p : ScopeProposal) : ScopeProg (Option String) :=
  match p.expectedRevision with
  | none => pure none
  | some revision => do
    let prior ← read fun s => (s.tables p.cohortId).revisions.find? (·.revision = revision)
    match prior with
    | none => ofExcept (reject "Expected cohort revision does not exist." 409)
    | some prior => pure (some prior.manifestSha256)

def isProposal (p : ScopeProposal) : Bool :=
  isIdentifier p.proposalId && isIdentifier p.cohortId &&
    p.expectedRevision.all (fun revision => 1 ≤ revision && revision ≤ maxSafeInteger) && 1 ≤ p.expectedCount &&
    p.expectedCount ≤ 100000

def beginCohortScope (actor : Option Actor) (p : ScopeProposal) : ScopeProg ScopeAnswer := do
  let reviewer ← ofExcept (humanMaintainer actor "")
  let metadata ← ofExcept p.metadata
  if isProposal p = false then
    ofExcept (reject "Choose a cohort, expected revision and complete member count (1–100,000)." 400)
  else
    let base ← proposalBase p
    let id := env.sha256 (proposalText p base metadata reviewer.id)
    let isThere ← read fun s => (s.uploads id).isSome
    if isThere = true then (.begun id) <$> scopeUpload actor id
    else
      let current ← currentCohort env p.cohortId
      if current.map (·.head.currentRevision) ≠ p.expectedRevision ∨ current.any (·.head.phase.isPublished) = true then
        ofExcept (reject "Select the current unpublished cohort revision." 409)
      else
        let _ ← ofExcept (scopeAuthority actor (priorAreas env current))
        modify (insertUpload id (proposed p base metadata reviewer.id))
        (.begun id) <$> scopeUpload actor id

/-! ## Append -/

def firstName (members : List CohortMember) : String := (members.head?.map (·.pkgbase)).getD ""

def finalName (members : List CohortMember) : String := (members.getLast?.map (·.pkgbase)).getD ""

/-- The batch of an append to an upload that was read as `u`. -/
def appendStep (id : String) (u : ScopeUpload) (index : Nat) (members : List CohortMember) (s : ScopeState) :
    Except PolicyError Unit × ScopeState :=
  match s.uploads id with
  | none => (conflict, s)
  | some row =>
    let next := appendBatch row.upload index (firstName members) (finalName members) members (membersJson members)
      (env.sha256 (membersJson members))
    if row.upload.nextChunk ≠ index ∨ row.upload.memberCount ≠ u.memberCount ∨ row.upload.sealedRevision ≠ none ∨
        ¬(next.chunks.map (·.index)).Nodup ∨ ¬EntriesUnique next.entries then (conflict, s)
    else (.ok (), s.setUpload id { row with upload := next })

def appendScope (c : Catalog) (actor : Option Actor) (id : String) (index : Nat) (input : List MemberInput) :
    ScopeProg ScopeAnswer := do
  let row ← scopeUpload actor id
  if index ≥ 4096 ∨ input = [] ∨ input.length > 100 then
    ofExcept (reject "Upload 1–100 members in each numbered scope chunk." 400)
  else
    let members ← ofExcept (cohortManifest c actor row.upload.lane input)
    if (encode (membersJson members)).length > maxScopeBytes then
      ofExcept (reject "Scope chunk exceeds one MiB. Reduce its member count." 413)
    else
      let previous ← read fun s => (s.uploads id).bind fun row => row.upload.chunks.find? (·.index = index)
      match previous with
      | some previous =>
        if previous.sha256 ≠ env.sha256 (membersJson members) then
          ofExcept (reject "An uploaded scope chunk cannot change. Start a new scope proposal." 409)
        else pure (.appended id index members)
      | none =>
        if row.upload.sealedRevision ≠ none ∨ index ≠ row.upload.nextChunk ∨
            UnitsLE (firstName members) row.upload.lastPkgbase ∨
            row.upload.memberCount + members.length > row.upload.expectedCount then
          ofExcept (reject "Append the next chunk in package-name order without exceeding the complete member count." 409)
        else
          transact (appendStep env id row.upload index members)
          let _ ← scopeUpload actor id
          pure (.appended id index members)

/-! ## Seal -/

/-- What the batch of a seal finds in the tables of teams, packages, recipes and events. -/
structure SealView where
  authorized : List String → Bool
  isCurrent : EntryRow → Bool
  recipeCurrent : EntryRow → Bool
  ownedElsewhere : EntryRow → Bool
  recorded : Bool
  eventSha256 : String

def ChunkRow.memberChunk (chunk : ChunkRow) : MemberChunk :=
  ⟨chunk.index, chunk.start, chunk.count, chunk.first, chunk.last, chunk.sha256⟩

def chunksOf (row : Option ScopeRow) : List ChunkRow :=
  ((row.map (·.upload.chunks)).getD []).insertionSort fun a b => a.index ≤ b.index

def entriesOf (row : Option ScopeRow) : List EntryRow := (row.map (·.upload.entries)).getD []

def ownerAreasOf (entries : List EntryRow) : List String :=
  (entries.map (·.member.policy.ownerArea)).eraseDups.insertionSort (· ≤ ·)

def targetsOf (entries : List EntryRow) : List Architecture :=
  (entries.flatMap (·.member.policy.architectures)).eraseDups.insertionSort fun a b => a.text ≤ b.text

/-- The tables of a cohort after the seal of an upload. -/
def sealedTables (t : CohortTables) (revision : Nat) (json : List Char) (hash : String) (u : ScopeUpload) : CohortTables where
  revisions := t.revisions ++ [⟨revision, json, hash⟩]
  chunks := t.chunks ++ u.chunks.map fun chunk => ⟨revision, chunk.index, chunk.membersJson, chunk.sha256⟩
  members := t.members ++ u.entries.map fun e => ⟨revision, e.member.pkgbase, some e.ordinal⟩

/-- The `UPDATE` that marks an upload, whose chunks were read, as sealed. -/
def canSeal (u : ScopeUpload) (chunks : Nat) : Bool :=
  u.sealedRevision.isNone && u.memberCount = u.expectedCount && u.nextChunk = chunks

def setSealed (row : ScopeRow) (revision : Nat) : ScopeRow :=
  { row with upload := { row.upload with sealedRevision := some revision } }

/-- The batch of a seal that changes nothing. -/
def keepStep (id cohortId : String) (current : CohortHead) (chunks : Nat) (areas : List String) (view : SealView) (s : ScopeState) :
    Except PolicyError Unit × ScopeState :=
  match s.uploads id, s.cohorts cohortId with
  | some row, some head =>
    if view.authorized areas = false ∨ head.currentRevision ≠ current.currentRevision ∨
        head.eventSequence ≠ current.eventSequence ∨ canSeal row.upload chunks = false then (conflict, s)
    else (.ok (), s.setUpload id (setSealed row current.currentRevision))
  | _, _ => (conflict, s)

/-- Whether the head of a cohort is the one that was read, or there is none as then. -/
def sameHead : Option CohortHead → Option CohortHead → Bool
  | none, none => true
  | some a, some b => a.currentRevision = b.currentRevision && a.eventSequence = b.eventSequence && a.eventSha256 = b.eventSha256
  | _, _ => false

/-- The batch of a seal that makes a revision of `manifest`. -/
def sealStep (id cohortId : String) (current : Option CohortHead) (chunks count revision : Nat) (manifest : List Char)
    (areas : List String) (view : SealView) (s : ScopeState) : Except PolicyError Unit × ScopeState :=
  match s.uploads id with
  | none => (conflict, s)
  | some row =>
    let entries := row.upload.entries
    let next := sealedTables (s.tables cohortId) revision manifest (env.sha256 manifest) row.upload
    if view.authorized areas = false ∨ canSeal row.upload chunks = false ∨ entries.countP view.isCurrent ≠ count ∨
        (entries.any fun e => e.requestId.isSome && (!view.recipeCurrent e || view.ownedElsewhere e)) = true ∨
        sameHead current (s.cohorts cohortId) = false ∨ view.recorded = false ∨ ¬TablesUnique next then (conflict, s)
    else (.ok (), { s.setUpload id (setSealed row revision) with
      cohorts := fun other => if other = cohortId then
          some ⟨revision, (current.map (·.eventSequence)).getD 0 + 1, some view.eventSha256, .plan⟩
        else s.cohorts other
      tables := fun other => if other = cohortId then next else s.tables other })

/-- What a seal checks of the chunks, areas and targets that it reads. -/
def sealWalk (row : ScopeRow) (chunks : List ChunkRow) (areas : List String) (targets : List Architecture) :
    Except PolicyError Nat := do
  let walk ← chunks.foldlM walkChunk (0, 0, "")
  if walk.2.1 ≠ row.upload.expectedCount ∨ chunks.length ≠ row.upload.nextChunk ∨ areas = [] ∨ targets = [] then
    reject "Cohort chunk coverage is incomplete." 409
  else pure walk.2.1

def sealCohortScope (actor : Option Actor) (id : String) (reason : JsString) (view : SealView) : ScopeProg ScopeAnswer := do
  let row ← scopeUpload actor id
  let _ ← ofExcept (reviewReason reason)
  match row.upload.sealedRevision with
  | some revision =>
    let _ ← read fun s => (s.tables row.cohortId).revisions.find? (·.revision = revision)
    pure (.sealed id revision)
  | none =>
    if row.upload.memberCount ≠ row.upload.expectedCount then
      ofExcept (reject "Upload every declared cohort member before sealing scope." 409)
    else
      let current ← currentCohort env row.cohortId
      if current.map (·.head.currentRevision) ≠ row.upload.expectedRevision ∨
          current.map (·.record.manifestSha256) ≠ row.upload.baseSha256 ∨ current.any (·.head.phase.isPublished) = true then
        ofExcept (reject "Cohort scope changed. Start from the current unpublished revision." 409)
      else
        let chunks ← read fun s => chunksOf (s.uploads id)
        let areas ← read fun s => ownerAreasOf (entriesOf (s.uploads id))
        let targets ← read fun s => targetsOf (entriesOf (s.uploads id))
        let count ← ofExcept (sealWalk row chunks areas targets)
        let _ ← ofExcept (scopeAuthority actor areas)
        let _ ← ofExcept (scopeAuthority actor (priorAreas env current))
        let manifest := manifestText row.metadata count (chunks.map ChunkRow.memberChunk) areas targets
        let fence := (areas ++ priorAreas env current).eraseDups
        if (encode manifest).length > maxScopeBytes then
          ofExcept (reject "Scope index exceeds one MiB. Use larger member chunks." 413)
        else
          match current.filter (·.record.manifestSha256 = env.sha256 manifest) with
          | some same =>
            transact (keepStep id row.cohortId same.head chunks.length fence view)
            pure (.sealed id same.head.currentRevision)
          | none =>
            let revision := row.upload.expectedRevision.getD 0 + 1
            transact (sealStep env id row.cohortId (current.map (·.head)) chunks.length count revision manifest fence view)
            pure (.sealed id revision)

end

end Omapkg.Server.Scope
