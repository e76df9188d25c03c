import Omapkg.Lib.Expansion
import Omapkg.Lib.Sql
import Omapkg.Server.AutomaticFactory
import Omapkg.Server.OutputMetadata
import Omapkg.Server.Validate
/-!
# Dependency requests

A blocked request waits for the requests its open blockers are linked to
(`src/src/lib/server/dependency-blockers.ts`, `dependency-proposals.ts`). The
links are one graph over all requests. Whoever links checks the graph first and
writes only if the graph's version is still the one it checked.
-/

namespace Omapkg.Server.Dependency

open Utf Prog
open Arch (PackageMetadata parseArchRelation satisfiesArchRelation)
open Automatic (RequestStatus)

/-! ## Reviewers -/

inductive Role where
  /-- `public`. -/
  | publicUser
  | maintainer | security | admin
  deriving DecidableEq, Repr

structure Actor where
  id : String
  role : Role
  areas : List String
  deriving DecidableEq, Repr

def requireMaintainer (actor : Option Actor) (area : String) : Except PolicyError Actor :=
  match actor with
  | none => reject "Sign in with GitHub to continue." 401
  | some actor =>
    if ¬[Role.maintainer, .security, .admin].contains actor.role ∨
        (area ≠ "" ∧ actor.role = .maintainer ∧ ¬actor.areas.contains area) then
      reject "You need maintainer access for this area." 403
    else .ok actor

/-- `/^github:[1-9][0-9]{0,19}$/`. -/
def isHuman (id : String) : Bool :=
  match id.toList with
  | 'g' :: 'i' :: 't' :: 'h' :: 'u' :: 'b' :: ':' :: first :: rest =>
    first.isDigit && first ≠ '0' && rest.all (·.isDigit) && rest.length ≤ 19
  | _ => false

def humanMaintainer (actor : Option Actor) (area : String) : Except PolicyError Actor := do
  let reviewer ← requireMaintainer actor area
  if isHuman reviewer.id = true then .ok reviewer
  else reject "A signed-in human maintainer must make this decision." 403

/-- `reviewReason`. -/
def reviewReason (value : JsString) : Except PolicyError JsString :=
  if trim value = [] ∨ (trim value).length > 2000 ∨ (trim value).any isControl = true then
    reject "Provide a clear reason, up to 2,000 characters." 400
  else .ok (trim value)

/-! ## Tables -/

inductive Resolution where
  | dependency | recipe | exception
  deriving DecidableEq, Repr

inductive BlockerStatus where
  | open | resolved | superseded
  deriving DecidableEq, Repr

/-- A row of `dependency_blockers`. -/
structure DependencyBlocker where
  id : String
  requestId : String
  architecture : Architecture
  relation : Option String
  resolution : Resolution
  dependencyRequestId : Option String
  status : BlockerStatus
  deriving DecidableEq, Repr

structure PackageRequest where
  id : String
  name : String
  area : String
  upstreamUrl : String
  status : RequestStatus
  factoryRunId : Option String
  /-- `preserved_import_id` is set. -/
  preserved : Bool
  /-- It has revisions. -/
  revised : Bool
  deriving DecidableEq, Repr

inductive ProposalStatus where
  | proposed | admitted | declined | superseded
  deriving DecidableEq, Repr

structure DependencyProposal where
  id : String
  manifestJson : String
  manifestSha256 : String
  status : ProposalStatus
  dependencyRequestId : Option String
  deriving DecidableEq, Repr

/-- A row of the query for signed and approved binary releases; the metadata is
what its build's provenance holds, if that can be read. -/
structure Provider where
  id : String
  requestId : String
  architecture : Architecture
  metadata : Option PackageMetadata
  deriving DecidableEq, Repr

inductive SourceKind where
  | git | archive
  deriving DecidableEq, Repr

/-- The admitted revision of a catalog package. -/
structure CatalogTarget where
  pkgbase : String
  upstreamUrl : String
  sourceKind : SourceKind
  deriving DecidableEq, Repr

structure RateLimit where
  key : String
  count : Nat
  lastRequest : Nat
  deriving DecidableEq, Repr

structure DependencyDb where
  /-- `dependency_graph_state`. -/
  version : Nat
  blockers : List DependencyBlocker
  requests : List PackageRequest
  proposals : List DependencyProposal
  /-- `dependency_proposal_blockers`. -/
  proposalBlockers : List (String × String)
  releases : List Provider
  catalog : List CatalogTarget
  rateLimits : List RateLimit

/-- What a request form holds once it is parsed. -/
structure RequestInput where
  name : String
  area : String
  upstreamUrl : String

structure ProposalManifest where
  relation : String
  architecture : Architecture
  name : String
  upstreamUrl : Option String
  sourceKind : Option SourceKind
  license : String
  targetPkgbase : Option String

/-- What does not change. -/
structure DependencyEnv where
  sha256 : String → String
  /-- `parseRequest` of a submitted form. -/
  parseRequest : JsString → Except PolicyError RequestInput
  /-- `parseRequest` of what a proposal for an area says. -/
  parseProposed : ProposalManifest → String → Except PolicyError RequestInput
  /-- `parseDependencyProposal` of a stored text. -/
  parseDependencyProposal : String → Except PolicyError ProposalManifest
  externalPackageSource : String → Bool
  /-- `env.PIPELINE` is there. -/
  pipeline : Bool

/-- The order in which a query without `ORDER BY` gives its rows. -/
structure RowOrder (α : Type) where
  rows : List α → List α
  perm : ∀ l, (rows l).Perm l

/-- What a call draws from outside: the time, an id, the orders of its queries and
whether the pipeline takes a dispatch. -/
structure Draws where
  timestamp : Nat
  id : String
  /-- Of the links read before a request is submitted. -/
  precheck : RowOrder (String × String)
  /-- Of the links read before they are written. -/
  edges : RowOrder (String × String)
  blockers : RowOrder DependencyBlocker
  dispatched : Bool

def refuse {α : Type} (status : Nat) (message : String) : Prog DependencyDb PolicyError α := fail ⟨status, message⟩

/-- An exception that is no `PolicyError`. -/
def rethrow (raised : Sql.Raised) : PolicyError := ⟨500, raised.message⟩

/-! ## Statements -/

/-- `UPDATE dependency_blockers` with the trigger `dependency_graph_changed`. -/
def updateBlockers (p : DependencyBlocker → Bool) (f : DependencyBlocker → DependencyBlocker) (db : DependencyDb) :
    DependencyDb × Nat :=
  let (blockers, changes) := Sql.update p f db.blockers
  let changed := db.blockers.countP fun b =>
    p b && (b.dependencyRequestId.isSome || (f b).dependencyRequestId.isSome)
  ({ db with blockers, version := db.version + changed }, changes)

def updateRequests (p : PackageRequest → Bool) (f : PackageRequest → PackageRequest) (db : DependencyDb) :
    DependencyDb × Nat :=
  let (requests, changes) := Sql.update p f db.requests
  ({ db with requests }, changes)

def updateProposals (p : DependencyProposal → Bool) (f : DependencyProposal → DependencyProposal)
    (db : DependencyDb) : DependencyDb × Nat :=
  let (proposals, changes) := Sql.update p f db.proposals
  ({ db with proposals }, changes)

/-- A row of `distribution_assertions`, whose check is that its two numbers are the same. -/
def assertEqual (expected : Nat) (actual : DependencyDb → Nat) : Sql.Statement DependencyDb := fun db _ =>
  if expected = actual db then .ok (db, 1) else .error ⟨"CHECK constraint failed: expected=actual"⟩

/-- `INSERT INTO distribution_assertions(expected,actual) VALUES(1,changes())`. -/
def assertChanged : Sql.Statement DependencyDb := fun db changes =>
  if changes = 1 then .ok (db, 1) else .error ⟨"CHECK constraint failed: expected=actual"⟩

/-- An audit event, which nothing here reads. -/
def audit : Sql.Statement DependencyDb := fun db _ => .ok (db, 1)

/-- An audit event `WHERE changes()=1`. -/
def auditChange : Sql.Statement DependencyDb := fun db changes => .ok (db, if changes = 1 then 1 else 0)

def requestIs (id : String) (status : RequestStatus) (db : DependencyDb) : Bool :=
  db.requests.any fun r => r.id = id && r.status = status

/-! ## Requests -/

def isActive (status : RequestStatus) : Bool := ¬[RequestStatus.built, .rejected, .failed].contains status

def rateKey (actor : Actor) : String := "request:" ++ actor.id

/-- One more request in the hour that the row counts, or the first of a new hour. -/
def countRequest (key : String) (timestamp : Nat) : Sql.Statement DependencyDb := fun db _ =>
  if db.rateLimits.any (·.key = key) = true then
    let step (r : RateLimit) : RateLimit := {
      r with
      count := if r.lastRequest + 3600 ≤ timestamp then 1 else if r.count < 10 then r.count + 1 else 11
      lastRequest := if r.lastRequest + 3600 ≤ timestamp ∨ r.count < 10 then timestamp else r.lastRequest }
    let (rateLimits, changes) := Sql.update (·.key = key) step db.rateLimits
    .ok ({ db with rateLimits }, changes)
  else .ok ({ db with rateLimits := db.rateLimits ++ [⟨key, 1, timestamp⟩] }, 1)

def insertRequest (key : String) (row : PackageRequest) : Sql.Statement DependencyDb := fun db _ =>
  if db.rateLimits.any (fun r => r.key = key && 1 ≤ r.count && r.count ≤ 10) = true then do
    let (requests, changes) ← Sql.insert (fun r => r.id = row.id || (r.name = row.name && isActive r.status))
      "UNIQUE constraint failed: requests.name" row db.requests
    .ok ({ db with requests }, changes)
  else .ok (db, 0)

def pendingRequestStatements (actor : Actor) (value : RequestInput) (requestId : String) (timestamp : Nat) :
    List (Sql.Statement DependencyDb) := [
  countRequest (rateKey actor) timestamp,
  insertRequest (rateKey actor) {
    id := requestId
    name := value.name
    area := value.area
    upstreamUrl := value.upstreamUrl
    status := .pending
    factoryRunId := none
    preserved := false
    revised := false },
  auditChange]

def activeRequest : PolicyError := ⟨409, "An active request for this package already exists."⟩

def submitRequest (env : DependencyEnv) (draws : Draws) (actor : Option Actor) (input : JsString) :
    Prog DependencyDb PolicyError String := do
  match actor with
  | none => refuse 401 "Sign in with GitHub to request a package."
  | some actor =>
    let value ← ofExcept (env.parseRequest input)
    let existing ← read fun db => db.requests.any fun r => r.name = value.name && isActive r.status
    if existing = true then fail activeRequest
    else
      let changes ← Sql.run (pendingRequestStatements actor value draws.id draws.timestamp) fun _ => activeRequest
      if changes[1]? = some 0 then refuse 429 "Request limit reached. Try again in one hour."
      else pure draws.id

/-! ## Checking the graph -/

structure DependencyLink where
  parent : String
  child : String
  blockerId : String
  deriving DecidableEq, Repr

/-- `SELECT DISTINCT request_id,dependency_request_id` of the open linked blockers, but
for those that get a new link. -/
def otherEdges (links : List DependencyLink) (db : DependencyDb) : List (String × String) :=
  let kept := db.blockers.filter fun b => b.status = .open && ¬(links.map (·.blockerId)).contains b.id
  (kept.filterMap fun b => b.dependencyRequestId.map fun child => (b.requestId, child)).eraseDups

def childrenOf (edges : List (String × String)) (node : String) : List String :=
  ((edges.filter (·.1 = node)).map (·.2)).eraseDups

def cycleDetected : PolicyError := ⟨409, "Dependency request cycle detected."⟩

def expansionExceeded : PolicyError := ⟨409, "Dependency request expansion exceeds 8 levels or 64 requests."⟩

/-- The roots are the nodes with children, in the order of the edges. -/
def checkExpansions (edges : List (String × String)) : Except PolicyError Unit := do
  let _ ← Expansion.visitAll 8 64 cycleDetected expansionExceeded (childrenOf edges) (edges.map (·.1)).eraseDups []
  .ok ()

def checkEdges (order : RowOrder (String × String)) (links : List DependencyLink) (db : DependencyDb) :
    Except PolicyError Unit :=
  let edges := (order.rows (otherEdges links db)).take 4097 ++ links.map fun link => (link.parent, link.child)
  if edges.length > 4096 then reject "Dependency request graph exceeds its admission budget." 409
  else checkExpansions edges

/-- The version is read before the links are. -/
def checkDependencyLinks (order : RowOrder (String × String)) (links : List DependencyLink) :
    Prog DependencyDb PolicyError Nat := do
  if links = [] ∨ links.length > 64 then refuse 409 "Link between 1 and 64 dependency requests per decision."
  else if links.any (fun link => link.parent = link.child) = true then refuse 409 "A request cannot depend on itself."
  else
    let version ← read (·.version)
    let checked ← read (checkEdges order links)
    let _ ← ofExcept checked
    pure version

def checkDependencyGraph (order : RowOrder (String × String)) (parent child replacing : String) :
    Prog DependencyDb PolicyError Nat := checkDependencyLinks order [⟨parent, child, replacing⟩]

/-! ## Resolving -/

def currentBlocker (actor : Option Actor) (requestId blockerId : String) : Prog DependencyDb PolicyError DependencyBlocker := do
  match ← read fun db => db.requests.find? (·.id = requestId) with
  | none => refuse 404 "Request not found."
  | some request =>
    let _ ← ofExcept (requireMaintainer actor request.area)
    let found ← read fun db => db.blockers.find? fun b => b.id = blockerId && b.requestId = requestId && b.status = .open
    match found with
    | none => refuse 409 "This blocker needs recipe review rather than a new dependency request."
    | some blocker =>
      if request.status ≠ .blocked ∨ blocker.resolution ≠ .dependency then
        refuse 409 "This blocker needs recipe review rather than a new dependency request."
      else pure blocker

def provides (blocker : DependencyBlocker) (release : Provider) : Bool :=
  match parseArchRelation (blocker.relation.getD "") with
  | none => false
  | some relation =>
    release.architecture = blocker.architecture && blocker.dependencyRequestId.all (release.requestId = ·) &&
      release.metadata.any fun metadata =>
        satisfiesArchRelation relation metadata.name metadata.fullVersion metadata.provides

def resolveBlocker (blocker : DependencyBlocker) : Prog DependencyDb PolicyError Unit := do
  let _ ← Sql.run [
    fun db _ => .ok (updateBlockers (fun b => b.id = blocker.id && b.status = .open)
      (fun b => { b with status := .resolved }) db),
    audit] rethrow
  pure ()

def resolveEach (releases : List Provider) : List DependencyBlocker → Prog DependencyDb PolicyError Unit
  | [] => pure ()
  | blocker :: rest => do
    if releases.any (provides blocker) = true then resolveBlocker blocker else pure ()
    resolveEach releases rest

/-- The request goes back to review, or to where it was submitted. -/
def resumeParent (parent : String) : Prog DependencyDb PolicyError Unit := do
  let _ ← Sql.run [
    fun db _ => .ok (updateRequests
      (fun r => r.id = parent && r.status = .blocked &&
        ¬db.blockers.any fun b => b.requestId = r.id && b.status = .open)
      (fun r => { r with status := if r.revised then .review else .pending }) db),
    auditChange] rethrow
  pure ()

def resumeEach : List String → Prog DependencyDb PolicyError Unit
  | [] => pure ()
  | parent :: rest => do
    resumeParent parent
    resumeEach rest

/-- Of one request, or of all of them. -/
def resolveDependencyBlockers (order : RowOrder DependencyBlocker) (requestId : Option String) :
    Prog DependencyDb PolicyError Unit := do
  let blockers ← read fun db => (order.rows (db.blockers.filter fun b =>
    b.status = .open && b.resolution = .dependency && requestIs b.requestId .blocked db &&
      requestId.all (b.requestId = ·))).take 256
  if blockers = [] then pure ()
  else
    let releases ← read (·.releases)
    resolveEach releases blockers
    resumeEach (blockers.map (·.requestId)).eraseDups

/-! ## Linking -/

/-- `UPDATE dependency_blockers SET dependency_request_id=?`, if the graph is still the
one that was checked. -/
def linkBlocker (blockerId child : String) (version : Nat) : Sql.Statement DependencyDb := fun db _ =>
  .ok (updateBlockers (fun b => b.id = blockerId && b.status = .open && db.version = version)
    (fun b => { b with dependencyRequestId := some child }) db)

def linkDependencyRequest (draws : Draws) (actor : Option Actor) (requestId blockerId dependencyRequestId : String) :
    Prog DependencyDb PolicyError Unit := do
  let blocker ← currentBlocker actor requestId blockerId
  let present ← read fun db => db.requests.any (·.id = dependencyRequestId)
  if present = false then refuse 404 "Dependency request not found."
  else
    let version ← checkDependencyGraph draws.edges requestId dependencyRequestId blockerId
    let changes ← Sql.run [linkBlocker blocker.id dependencyRequestId version, auditChange] rethrow
    if changes.headD 0 = 0 then refuse 409 "Dependency graph changed; refresh and retry linking."
    else resolveDependencyBlockers draws.blockers (some requestId)

def createDependencyRequest (env : DependencyEnv) (draws : Draws) (actor : Option Actor) (requestId blockerId : String)
    (input : JsString) : Prog DependencyDb PolicyError String := do
  let _ ← currentBlocker actor requestId blockerId
  -- the expansion budget, before another upstream URL is admitted
  let _ ← checkDependencyGraph draws.precheck requestId ("new:" ++ blockerId) blockerId
  let child ← submitRequest env draws actor input
  linkDependencyRequest draws actor requestId blockerId child
  pure child

/-! ## Proposals -/

structure ProposalParent where
  blocker : DependencyBlocker
  name : String
  area : String
  requestStatus : RequestStatus

/-- The blockers of a proposal with their requests, `ORDER BY q.name,d.id`. -/
def proposalParents (proposalId : String) (db : DependencyDb) : List ProposalParent :=
  let ids := (db.proposalBlockers.filter (·.1 = proposalId)).map (·.2)
  let joined := ids.flatMap fun id => (db.blockers.filter (·.id = id)).flatMap fun blocker =>
    (db.requests.filter (·.id = blocker.requestId)).map fun request =>
      (⟨blocker, request.name, request.area, request.status⟩ : ProposalParent)
  joined.insertionSort fun a b => a.name < b.name ∨ (a.name = b.name ∧ a.blocker.id ≤ b.blocker.id)

def getDependencyProposal (env : DependencyEnv) (proposalId : String) :
    Prog DependencyDb PolicyError (DependencyProposal × ProposalManifest × List ProposalParent) := do
  match ← read fun db => db.proposals.find? (·.id = proposalId) with
  | none => refuse 404 "Dependency proposal not found."
  | some proposal =>
    if env.sha256 proposal.manifestJson ≠ proposal.manifestSha256 then
      refuse 409 "Dependency proposal integrity check failed."
    else
      let parents ← read (proposalParents proposalId)
      let manifest ← ofExcept (env.parseDependencyProposal proposal.manifestJson)
      pure (proposal, manifest, parents)

def authorizeParents (actor : Option Actor) (parents : List ProposalParent) : Except PolicyError Actor := do
  let reviewer ← humanMaintainer actor ""
  let _ ← parents.mapM fun parent => humanMaintainer (some reviewer) parent.area
  .ok reviewer

/-- A batch of a proposal, and `proposalConflict` for what a constraint raises. -/
def runProposal (statements : List (Sql.Statement DependencyDb)) : Prog DependencyDb PolicyError (List Nat) :=
  Sql.run statements fun _ =>
    ⟨409, "Proposal, request budget or dependency graph changed. Refresh and review before retrying; link an existing request when appropriate."⟩

def decline (proposalId expectedDigest : String) : Prog DependencyDb PolicyError Unit := do
  let changes ← Sql.run [
    fun db _ => .ok (updateProposals
      (fun p => p.id = proposalId && p.status = .proposed && p.manifestSha256 = expectedDigest)
      (fun p => { p with status := .declined }) db),
    auditChange] rethrow
  if changes.headD 0 = 0 then refuse 409 "Proposal changed. Refresh before deciding." else pure ()

/-- The target catalog package of a variant is the same package. -/
def checkTarget (manifest : ProposalManifest) (target : Option CatalogTarget) : Except PolicyError Unit :=
  match target with
  | none => reject "Admit the target catalog policy before requesting its ARM variant." 409
  | some target =>
    if target.pkgbase ≠ manifest.name ∨ some target.upstreamUrl ≠ manifest.upstreamUrl ∨
        some target.sourceKind ≠ manifest.sourceKind then
      reject "Variant identity and source must match the admitted catalog package." 409
    else .ok ()

/-- The request to submit, unless an existing one is chosen. -/
def chooseRequest (env : DependencyEnv) (actor : Option Actor) (manifest : ProposalManifest) (area : String)
    (existingRequestId : Option String) : Prog DependencyDb PolicyError (Option RequestInput) := do
  match existingRequestId with
  | some existingId =>
    match ← read fun db => db.requests.find? (·.id = existingId) with
    | none => refuse 409 "Choose an existing non-rejected package request."
    | some existing =>
      if existing.status = .rejected then refuse 409 "Choose an existing non-rejected package request."
      else
        let _ ← ofExcept (humanMaintainer actor existing.area)
        pure none
  | none =>
    if manifest.upstreamUrl.isNone ∨ manifest.sourceKind.isNone then
      refuse 400 "Review the authoritative upstream URL and source kind before admission."
    else
      let request ← ofExcept (env.parseProposed manifest area)
      match manifest.targetPkgbase with
      | none => pure (some request)
      | some pkgbase =>
        let target ← read fun db => db.catalog.find? (·.pkgbase = pkgbase)
        let _ ← ofExcept (checkTarget manifest target)
        pure (some request)

/-- The statements that submit the request of a proposal. -/
def submitStatements (reviewer : Actor) (requestId : String) (timestamp : Nat) :
    Option RequestInput → List (Sql.Statement DependencyDb)
  | none => []
  | some request => pendingRequestStatements reviewer request requestId timestamp ++
      [assertEqual 1 fun db => db.requests.countP fun r => r.id = requestId && r.status = .pending]

/-- `UPDATE dependency_blockers SET dependency_request_id=?` of a blocked parent. -/
def linkParent (requestId blockerId : String) : Sql.Statement DependencyDb := fun db _ =>
  .ok (updateBlockers (fun b => b.id = blockerId && b.status = .open && requestIs b.requestId .blocked db)
    (fun b => { b with dependencyRequestId := some requestId }) db)

def linkStatements (requestId : String) : List DependencyLink → List (Sql.Statement DependencyDb)
  | [] => []
  | link :: rest => linkParent requestId link.blockerId :: assertChanged :: audit :: linkStatements requestId rest

def admitProposal (proposalId requestId : String) : Sql.Statement DependencyDb := fun db _ =>
  .ok (updateProposals (·.id = proposalId)
    (fun p => { p with status := .admitted, dependencyRequestId := some requestId }) db)

def admitStatements (reviewer : Actor) (proposalId expectedDigest requestId : String) (timestamp version : Nat)
    (request : Option RequestInput) (links : List DependencyLink) : List (Sql.Statement DependencyDb) :=
  [assertEqual 1 fun db => db.proposals.countP fun p =>
      p.id = proposalId && p.status = .proposed && p.manifestSha256 = expectedDigest,
    assertEqual version (·.version)] ++
  submitStatements reviewer requestId timestamp request ++ linkStatements requestId links ++
  [admitProposal proposalId requestId, audit]

def admitParents (env : DependencyEnv) (draws : Draws) (actor : Option Actor) (reviewer : Actor) (proposalId expectedDigest : String)
    (manifest : ProposalManifest) (parents : List ProposalParent) (existingRequestId : Option String) :
    Prog DependencyDb PolicyError Unit := do
  match parents.filter fun parent => parent.blocker.status = .open && parent.requestStatus = .blocked with
  | [] => refuse 409 "No current blocked parents need this proposal."
  | first :: rest =>
    let requestId := existingRequestId.getD draws.id
    let request ← chooseRequest env actor manifest first.area existingRequestId
    let links := (first :: rest).map fun parent =>
      (⟨parent.blocker.requestId, requestId, parent.blocker.id⟩ : DependencyLink)
    let version ← checkDependencyLinks draws.edges links
    let _ ← runProposal (admitStatements reviewer proposalId expectedDigest requestId draws.timestamp version request links)
    pure ()

def decideDependencyProposal (env : DependencyEnv) (draws : Draws) (actor : Option Actor)
    (proposalId expectedDigest decision : String) (message : JsString) (existingRequestId : Option String) :
    Prog DependencyDb PolicyError Unit := do
  let (proposal, manifest, parents) ← getDependencyProposal env proposalId
  let reviewer ← ofExcept (authorizeParents actor parents)
  let _ ← ofExcept (reviewReason message)
  if decision ≠ "admit" ∧ decision ≠ "decline" then refuse 400 "Choose admit or decline."
  else if proposal.manifestSha256 ≠ expectedDigest then refuse 409 "Proposal changed. Review its current revision."
  else if proposal.status = .admitted ∧ decision = "admit" then pure ()
  else if proposal.status ≠ .proposed then refuse 409 "Proposal already has a decision."
  else if decision = "decline" then decline proposalId expectedDigest
  else admitParents env draws actor reviewer proposalId expectedDigest manifest parents (existingRequestId.filter (· ≠ ""))

/-! ## Superseding -/

/-- A new generation leaves the findings of the one before behind. -/
def supersede (requestId generationId : String) : Sql.Statement DependencyDb := fun db _ =>
  let generating := db.requests.any fun r =>
    r.id = requestId && r.status = .generating && r.factoryRunId = some generationId
  .ok (updateBlockers (fun b => b.requestId = requestId && b.status = .open && generating)
    (fun b => { b with status := .superseded }) db)

def isReason (reason : JsString) : Bool := trim reason ≠ [] && reason.length ≤ 2000

/-- `requests.ts`. -/
def startFactory (env : DependencyEnv) (draws : Draws) (actor : Option Actor) (requestId : String)
    (reason : Option JsString) : Prog DependencyDb PolicyError Unit := do
  match ← read fun db => db.requests.find? (·.id = requestId) with
  | none => refuse 404 "Package request not found."
  | some request =>
    let _ ← ofExcept (requireMaintainer actor request.area)
    if request.preserved = true then
      refuse 409 "Original recipe imports cannot be regenerated by the factory. Review or replace the captured recipe."
    else if env.externalPackageSource request.upstreamUrl = true then
      refuse 409 "This external packaging source needs a human-reviewed OPR replacement before generation."
    else if reason.any (¬isReason ·) = true then refuse 400 "Provide a regeneration reason, up to 2,000 characters."
    else if ¬[RequestStatus.pending, .failed, .review, .blocked].contains request.status then
      refuse 409 "This request cannot start factory generation in its current state."
    else if env.pipeline = false then refuse 503 "Factory service is not configured."
    else
      let changes ← Sql.run [
        fun db _ => .ok (updateRequests (fun r => r.id = requestId && r.status = request.status)
          (fun r => { r with status := .generating, factoryRunId := some draws.id }) db),
        auditChange, supersede requestId draws.id] rethrow
      if changes.headD 0 = 0 then refuse 409 "Request changed. Refresh and retry."
      else if draws.dispatched = true then pure ()
      else
        let failure ← Sql.run [
          fun db _ => .ok (updateRequests
            (fun r => r.id = requestId && r.status = .generating && r.factoryRunId = some draws.id)
            (fun r => { r with status := .failed }) db),
          auditChange] rethrow
        if failure.headD 0 = 0 then refuse 409 "Request changed. Refresh and retry."
        else refuse 503 "Factory dispatch failed."

/-! ## Calls -/

inductive DependencyCall where
  | link (requestId blockerId dependencyRequestId : String)
  | create (requestId blockerId : String) (input : JsString)
  | decide (proposalId expectedDigest decision : String) (message : JsString) (existingRequestId : Option String)
  | resolve (requestId : Option String)
  | start (requestId : String) (reason : Option JsString)

def DependencyCall.run (env : DependencyEnv) (draws : Draws) (actor : Option Actor) :
    DependencyCall → Prog DependencyDb PolicyError Unit
  | link requestId blockerId child => linkDependencyRequest draws actor requestId blockerId child
  | create requestId blockerId input => do
    let _ ← createDependencyRequest env draws actor requestId blockerId input
    pure ()
  | decide proposalId digest decision message existing =>
    decideDependencyProposal env draws actor proposalId digest decision message existing
  | resolve requestId => resolveDependencyBlockers draws.blockers requestId
  | start requestId reason => startFactory env draws actor requestId reason

/-- Any call by anyone. -/
def Calls (env : DependencyEnv) (_ : Nat) (p : Prog DependencyDb PolicyError Unit) : Prop :=
  ∃ draws actor call, p = DependencyCall.run env draws actor call

/-- What else moves the tables: a build or a generation reports a blocker, a migration
supersedes those of old revisions, and others move the rest. -/
inductive Outside : DependencyDb → DependencyDb → Prop where
  | reported (db : DependencyDb) (row : DependencyBlocker) : db.blockers.any (·.id = row.id) = false →
      row.status = .open → row.dependencyRequestId = none → Outside db { db with blockers := db.blockers ++ [row] }
  | superseded (db : DependencyDb) (p : DependencyBlocker → Bool) :
      Outside db (updateBlockers (fun b => b.status = .open && p b) (fun b => { b with status := .superseded }) db).1
  | others (db : DependencyDb) (requests : List PackageRequest) (proposals : List DependencyProposal)
      (proposalBlockers : List (String × String)) (releases : List Provider) (catalog : List CatalogTarget)
      (rateLimits : List RateLimit) :
      Outside db { db with requests, proposals, proposalBlockers, releases, catalog, rateLimits }

end Omapkg.Server.Dependency
