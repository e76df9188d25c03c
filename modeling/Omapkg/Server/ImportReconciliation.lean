import Omapkg.Lib.Paging
import Omapkg.Lib.Sql
import Omapkg.Server.CatalogManifest
import Omapkg.Server.DependencyGraph
import Omapkg.Server.ImportComparison
/-!
# Reconciling two imports

`reconcileCatalogImports` of `src/src/lib/server/catalog-reconciliation.ts`. One statement writes the
rows of a comparison; they are counted and hashed page by page, and the report is sealed. Other runs
of the same comparison do the same in between, or stop anywhere.
-/

namespace Omapkg.Server.Reconciliation

open Utf Json Prog
open Catalog (Url externalPackageSource)
open Dependency (Actor humanMaintainer)
open Rebuild (UnitsLE sorted)

/-! ## Imports -/

inductive ImportStatus where
  | capturing | captured | reconciled
  deriving DecidableEq, Repr

inductive ImportKind where
  | arch | omarchy | opr
  deriving DecidableEq, Repr

inductive SourceSignature where
  | verified | unverified | missing | failed
  deriving DecidableEq, Repr

def SourceSignature.text : SourceSignature → String
  | .verified => "verified"
  | .unverified => "unverified"
  | .missing => "missing"
  | .failed => "failed"

structure ImportSource where
  id : String
  url : JsString
  collection : RepositoryName
  target : Architecture
  /-- The `status`, which is `captured` or `unavailable`. -/
  captured : Bool
  sha256 : Option String
  entries : Nat
  signature : SourceSignature
  error : Option String

structure ImportManifest where
  kind : ImportKind
  channel : String
  sources : List ImportSource

/-! ## sourceCoverage -/

structure NewTarget where
  collection : RepositoryName
  target : Architecture
  referencePackages : Nat
  deriving DecidableEq

structure SourceCoverage where
  sourceGaps : List String
  qualificationNotes : List String
  newTargets : List NewTarget

def isWordChar (c : Char) : Bool := isAlnum c || c = '_'

/-- One of the two texts, and no word goes on after it. -/
def is404 (text : List Char) : Bool :=
  ["HTTP 404", "HTTP Error 404"].any fun word =>
    word.toList.isPrefixOf text && !(text.drop word.toList.length).head?.any isWordChar

/-- `/\bHTTP(?: Error)? 404\b/`; `inWord` tells of the character before. -/
def has404 : Bool → List Char → Bool
  | _, [] => false
  | inWord, c :: text => (!inWord && is404 (c :: text)) || has404 (isWordChar c) text

def hasTarget (manifest : ImportManifest) (collection : RepositoryName) (target : Architecture) : Bool :=
  manifest.sources.any fun source => source.collection = collection && source.target = target

/-- The baseline has no ARM repository of a collection, or one that was not found. -/
def absent (baseline : ImportManifest) (collection : RepositoryName) : Bool :=
  match baseline.sources.find? fun source => source.collection = collection && source.target = .aarch64 with
  | none => true
  | some source => !source.captured && source.sha256.isNone && has404 false (source.error.getD "").toList

def newTargets (candidate baseline : ImportManifest) (scope : List RepositoryName) : List NewTarget :=
  (scope.filter fun collection => collection ≠ .multilib &&
    ((baseline.kind = .omarchy || baseline.kind = .opr) && absent baseline collection)).map fun collection =>
      ⟨collection, .aarch64, ((candidate.sources.filter fun source =>
        source.collection = collection && source.target = .aarch64).map (·.entries)).sum⟩

def isNewTarget (targets : List NewTarget) (collection : RepositoryName) (target : Architecture) : Bool :=
  targets.any fun item => item.collection = collection && item.target = target

def newTargetNote (baseline : ImportManifest) (item : NewTarget) : String :=
  "No existing " ++ (if baseline.kind = .opr then "OPR" else "Omarchy") ++ " ARM baseline for " ++ item.collection.text ++
    ". Qualify our own ARM target; an upstream ARM mirror is not required."

/-- What is found of a manifest; the first part tells whether it is a note or a gap. -/
def findings (parseUrl : JsString → Option Url) (targets : List NewTarget) (scope : List RepositoryName) (label : String)
    (manifest : ImportManifest) : List (Bool × String) :=
  let sources := (manifest.sources.filter fun source => scope.contains source.collection).flatMap fun source =>
    let reference := manifest.kind = .arch && externalPackageSource parseUrl source.url
    let note := isNewTarget targets source.collection source.target || reference
    (if source.captured then [] else
      [(note, label ++ ": " ++ source.id ++ " unavailable — " ++ source.error.getD "null" ++
        (if reference then " (reference only; use owned OPR builds)" else ""))]) ++
      if source.signature = .failed then [(note, label ++ ": " ++ source.id ++ " signature verification failed")] else []
  sources ++ scope.flatMap fun collection =>
    (if collection = .multilib then [Architecture.x86_64] else [.x86_64, .aarch64]).flatMap fun target =>
      if hasTarget manifest collection target then [] else
        [(isNewTarget targets collection target, label ++ ": " ++ collection.text ++ "/" ++ target.text ++ " was not captured")]

def sourceCoverage (parseUrl : JsString → Option Url) (candidate baseline : ImportManifest) (scope : List RepositoryName) :
    SourceCoverage :=
  let targets := newTargets candidate baseline scope
  let found := findings parseUrl targets scope "Candidate" candidate ++ findings parseUrl targets scope "Baseline" baseline
  { sourceGaps := sorted ((found.filter fun f => !f.1).map (·.2)).dedup
    qualificationNotes := sorted (targets.map (newTargetNote baseline) ++ (found.filter (·.1)).map (·.2)).dedup
    newTargets := targets }

/-! ## Tables -/

structure CatalogReconciliationReport where
  candidateId : String
  baselineId : String
  baselineChannel : String
  scope : List RepositoryName
  candidatePackages : Nat
  baselinePackages : Nat
  differences : Nat
  counts : DifferenceKind → Nat
  sourceGaps : List String
  sourceWarnings : List String
  qualificationNotes : List String
  newTargets : List NewTarget
  matchesBaseline : Bool
  coverageComplete : Bool
  itemsSha256 : String

structure ImportRow where
  id : String
  status : ImportStatus
  manifest : ImportManifest

/-- A row of `catalog_import_entries`, whose columns are fields of the entry. -/
structure EntryRow where
  importId : String
  entry : ImportEntry

/-- A row of `catalog_reconciliations`: there is no report while it is `preparing`. -/
structure ReportRow where
  id : String
  report : Option CatalogReconciliationReport

/-- A row of `catalog_reconciliation_items`, whose columns are fields of the item. -/
structure ItemRow where
  reportId : String
  item : ImportDifference

structure ReconcileDb where
  imports : List ImportRow
  entries : List EntryRow
  reports : List ReportRow
  items : List ItemRow

/-- The hash, the parser of URLs and the order of texts in the database. -/
structure ReconcileEnv where
  sha256 : List Char → String
  parseUrl : JsString → Option Url
  collation : Collation

/-! ## One comparison -/

/-- What is known of a comparison before its rows are written. -/
structure Comparison where
  candidateId : String
  baselineId : String
  candidate : ImportManifest
  baseline : ImportManifest
  scope : List RepositoryName
  coverage : SourceCoverage
  reportId : String

/-- `[...new Set(collections)].sort()`. -/
def scopeOf (candidate : ImportManifest) : List RepositoryName :=
  (candidate.sources.map (·.collection)).dedup.insertionSort fun a b => UnitsLE a.text b.text

def inScope (baseline : ImportManifest) (scope : List RepositoryName) : Bool :=
  baseline.sources.any fun source => scope.contains source.collection

def reportIdOf (env : ReconcileEnv) (candidateId baselineId : String) : String :=
  env.sha256 (canonicalJson (.arr [.str (units "catalog-reconciliation-3"), .str (units candidateId), .str (units baselineId)]))

def comparisonOf (env : ReconcileEnv) (candidateId baselineId : String) (candidate baseline : ImportManifest) : Comparison where
  candidateId
  baselineId
  candidate
  baseline
  scope := scopeOf candidate
  coverage := sourceCoverage env.parseUrl candidate baseline (scopeOf candidate)
  reportId := reportIdOf env candidateId baselineId

/-- The entries of an import. -/
def entryList (importId : String) (db : ReconcileDb) : List ImportEntry :=
  (db.entries.filter fun row => row.importId = importId).map (·.entry)

/-- The rows of a report. -/
def itemsOf (reportId : String) (db : ReconcileDb) : List ImportDifference :=
  (db.items.filter fun row => row.reportId = reportId).map (·.item)

def readyReport (reportId : String) (db : ReconcileDb) : Option CatalogReconciliationReport :=
  db.reports.findSome? fun row => if row.id = reportId then row.report else none

/-- `INSERT … ON CONFLICT(id) DO NOTHING`. -/
def insertPending (reportId : String) (db : ReconcileDb) : ReconcileDb :=
  if db.reports.any (·.id = reportId) = true then db else { db with reports := db.reports ++ [⟨reportId, none⟩] }

/-- One row of `INSERT … ON CONFLICT DO NOTHING`. -/
def insertItem (reportId : String) (items : List ItemRow) (item : ImportDifference) : List ItemRow :=
  if items.any (fun row => row.reportId = reportId && row.item.key = item.key) = true then items
  else items ++ [⟨reportId, item⟩]

def keyLE (a b : ImportDifference) : Bool := a.key ≤ b.key

/-- A page of items, in the order of their keys. -/
def itemPage (reportId cursor : String) (db : ReconcileDb) : List ImportDifference :=
  (((itemsOf reportId db).filter fun item => cursor < item.key).mergeSort keyLE).take 250

/-- What is hashed of an item, after `n` others. -/
def itemText (n : Nat) (item : ImportDifference) : List Char :=
  if n = 0 then canonicalJson item.json else ',' :: canonicalJson item.json

def hashItem (state : Nat × List Char) (item : ImportDifference) : Nat × List Char :=
  (state.1 + 1, state.2 ++ itemText state.1 item)

/-- The pages of a report, at most `fuel` of them, and the text that was hashed. -/
def hashItems (reportId : String) : Nat → String → Nat × List Char → Prog ReconcileDb PolicyError (Nat × List Char)
  | 0, _, _ => fail ⟨500, ""⟩
  | fuel + 1, cursor, state => do
    let page ← read (itemPage reportId cursor)
    match page.getLast? with
    | none => pure state
    | some last => hashItems reportId fuel last.key (page.foldl hashItem state)

namespace Comparison

variable (c : Comparison) (env : ReconcileEnv)

/-- The `filter` of the statements. -/
def selects (entry : ImportEntry) : Bool :=
  c.scope.contains entry.collection && !isNewTarget c.coverage.newTargets entry.collection entry.target

/-- The entries of an import, restricted to the scope and without the new targets. -/
def entries (importId : String) (db : ReconcileDb) : List ImportEntry := (entryList importId db).filter c.selects

/-- A package that one import has twice. -/
def duplicate (db : ReconcileDb) : Option String :=
  let repeated (entries : List ImportEntry) : Option ImportEntry := entries.find? fun e => 1 < entries.countP fun e' =>
    e'.collection = e.collection && e'.target = e.target && e'.name = e.name
  ((repeated (c.entries c.candidateId db)).or (repeated (c.entries c.baselineId db))).map (·.name)

def insertDifferences (db : ReconcileDb) : ReconcileDb :=
  let rows := differenceRows env.collation (c.entries c.candidateId db) (c.entries c.baselineId db)
  { db with items := rows.foldl (insertItem c.reportId) db.items }

def countKinds (db : ReconcileDb) (kind : DifferenceKind) : Nat := (itemsOf c.reportId db).countP (·.kind = kind)

def sizes (db : ReconcileDb) : Nat × Nat := ((c.entries c.candidateId db).length, (c.entries c.baselineId db).length)

def sourceWarnings : List String :=
  ((c.candidate.sources ++ c.baseline.sources).filter fun source => source.captured && source.signature ≠ .verified).map
    fun source => source.id ++ ": source signature " ++ source.signature.text ++ "; metadata equality is not trust approval"

def report (sizes : Nat × Nat) (counts : DifferenceKind → Nat) (hashed : Nat × List Char) : CatalogReconciliationReport where
  candidateId := c.candidateId
  baselineId := c.baselineId
  baselineChannel := c.baseline.channel
  scope := c.scope
  candidatePackages := sizes.1
  baselinePackages := sizes.2
  differences := hashed.1
  counts := counts
  sourceGaps := c.coverage.sourceGaps
  sourceWarnings := c.sourceWarnings
  qualificationNotes := c.coverage.qualificationNotes
  newTargets := c.coverage.newTargets
  matchesBaseline := hashed.1 = 0 && c.coverage.sourceGaps.length = 0
  coverageComplete := counts .missing = 0 && c.coverage.sourceGaps.length = 0
  itemsSha256 := env.sha256 ('[' :: (hashed.2 ++ [']']))

/-- The assertion and the update of the last batch. -/
def sealing (report : CatalogReconciliationReport) : List (Sql.Statement ReconcileDb) :=
  [fun db _ => if (itemsOf c.reportId db).length = report.differences then .ok (db, 1) else .error ⟨"CHECK constraint failed"⟩,
    fun db _ =>
      let updated := Sql.update (fun row : ReportRow => row.id = c.reportId && row.report.isNone)
        (fun row => { row with report := some report }) db.reports
      .ok ({ db with reports := updated.1 }, updated.2)]

/-- What follows when no report is ready. -/
def prepare : Prog ReconcileDb PolicyError CatalogReconciliationReport := do
  let _ ← modify (insertPending c.reportId)
  let duplicate ← read c.duplicate
  match duplicate with
  | some name => ofExcept (reject s!"Captured sources overlap for {name}; choose non-overlapping repository sources." 409)
  | none =>
    let _ ← modify (c.insertDifferences env)
    let counts ← read c.countKinds
    let sizes ← read c.sizes
    -- no more pages than packages
    let hashed ← hashItems c.reportId (sizes.1 + sizes.2 + 1) "" (0, [])
    let _ ← Sql.run (c.sealing (c.report env sizes counts hashed)) fun _ => ⟨500, ""⟩
    pure (c.report env sizes counts hashed)

end Comparison

def getCatalogImport (id : String) : Prog ReconcileDb PolicyError ImportRow := do
  let row ← read fun db => db.imports.find? (·.id = id)
  ofExcept (match row with
    | some row => .ok row
    | none => reject "Catalog import not found." 404)

def reconcileCatalogImports (env : ReconcileEnv) (actor : Option Actor) (candidateId baselineId : String) :
    Prog ReconcileDb PolicyError CatalogReconciliationReport := do
  let _ ← ofExcept (humanMaintainer actor "system")
  if candidateId = baselineId then ofExcept (reject "Compare an import with a separately captured baseline." 400)
  else
    let candidate ← getCatalogImport candidateId
    let baseline ← getCatalogImport baselineId
    if candidate.status = .capturing ∨ baseline.status = .capturing then
      ofExcept (reject "Seal both captures before comparison." 409)
    else if inScope baseline.manifest (scopeOf candidate.manifest) = false then
      ofExcept (reject "The baseline has no matching repository scope. Capture the matching Omarchy or OPR repositories." 409)
    else
      let c := comparisonOf env candidateId baselineId candidate.manifest baseline.manifest
      let existing ← read (readyReport c.reportId)
      match existing with
      | some report => pure report
      | none => c.prepare env

end Omapkg.Server.Reconciliation
