import Omapkg.Lib.Pool
import Omapkg.Server.FrozenInputs
import Omapkg.Server.Qualification
import Omapkg.Server.WorkerProtocol
/-!
# The index of ABI records

`readAbi` of `src/src/lib/server/cohort-qualification.ts` over the evidence of
`src/src/lib/server/build-abi-evidence.ts`: the chunks of an inventory are
indexed one by one, with a cursor to go on from, and a last row says how many
records there are.
-/

namespace Omapkg.Server.Qualification

open Utf Prog
open Frozen (parseInputObject isInputHash integer)
open Inputs (InputObject)

def maxAbiDocument : Nat := 512 * 1024

def maxAbiChunks : Nat := 2048

/-! ## Documents -/

structure AbiChunkRef extends InputObject where
  start : Nat
  count : Nat
  files : Nat
  symbols : Nat
  deriving DecidableEq

structure AbiInventory where
  artifactSha256 : String
  files : Nat
  symbols : Nat
  chunks : List AbiChunkRef
  typeAbi : TypeAbi
  deriving DecidableEq

structure AbiChunk where
  artifactSha256 : String
  start : Nat
  records : List AbiRecord
  deriving DecidableEq

inductive AbiDocument where
  | inventory (document : AbiInventory)
  | chunk (document : AbiChunk)
  deriving DecidableEq

def parseAbiReference (ref : InputObject) : Except String InputObject := parseInputObject ref maxAbiDocument

/-- The chunks follow each other from `count` on, each digest once. -/
def chunksFollow : List String → Nat → List AbiChunkRef → Bool
  | _, _, [] => true
  | seen, count, chunk :: chunks =>
    (parseAbiReference chunk.toInputObject).isOk && !seen.contains chunk.sha256 && chunk.start = count &&
      integer chunk.count 1 2048 && integer chunk.files 0 chunk.count && integer chunk.symbols 0 chunk.count &&
      chunk.files + chunk.symbols = chunk.count &&
      chunksFollow (chunk.sha256 :: seen) (count + chunk.count) chunks

/-- What `parseAbiDocument` checks besides single records and the tool that is named. -/
def isAbiDocument : AbiDocument → Bool
  | .inventory d =>
    isInputHash d.artifactSha256 && integer d.files 1 100000 && integer d.symbols 0 2000000 && d.chunks ≠ [] &&
      d.chunks.length ≤ maxAbiChunks && chunksFollow [] 0 d.chunks && (d.chunks.map (·.files)).sum = d.files &&
      (d.chunks.map (·.symbols)).sum = d.symbols
  | .chunk d =>
    isInputHash d.artifactSha256 && integer d.start 0 2099999 && d.records ≠ [] && d.records.length ≤ 2048 &&
      d.start + d.records.length ≤ 2100000

/-! ## Tables -/

inductive EvidenceKind where
  | abiRecords | abiInventory
  deriving DecidableEq, Repr

/-- A row of `build_abi_evidence`. -/
structure EvidenceRow where
  buildId : String
  attempt : Nat
  sha256 : String
  size : Nat
  artifactSha256 : String
  kind : EvidenceKind
  start : Nat
  files : Nat
  symbols : Nat
  manifestJson : Option Bytes
  deriving DecidableEq

def EvidenceRow.key (row : EvidenceRow) : String × Nat × String := (row.buildId, row.attempt, row.sha256)

/-- The key of the index tables. -/
structure IndexKey where
  cohortId : String
  revision : Nat
  architecture : Architecture
  artifactSha256 : String
  inventorySha256 : String
  deriving DecidableEq

/-- A row of `cohort_qualification_abi_records`, whose other columns are fields of the record. -/
structure AbiRecordRow where
  key : IndexKey
  ordinal : Nat
  record : AbiRecord
  deriving DecidableEq

/-- A row of `cohort_qualification_abi_index_state`. -/
structure IndexStateRow where
  key : IndexKey
  typeAbi : TypeAbi
  recordCount : Nat
  deriving DecidableEq

/-- A row of `cohort_qualification_abi_progress`. -/
structure ProgressRow where
  key : IndexKey
  nextChunk : Nat
  deriving DecidableEq

/-- The tables and the stored chunks by their digests. `finished` is kept beside
them: for each row of the index state, the `next_chunk` that its run went on from. -/
structure AbiState where
  evidence : List EvidenceRow
  objects : String → Option Bytes
  records : List AbiRecordRow
  indexStates : List IndexStateRow
  progress : List ProgressRow
  finished : List (IndexKey × Nat)

inductive AbiThrow where
  | policy (error : PolicyError)
  | worker (error : WorkerProtocolError)
  | input (message : String)
  | unique
  deriving DecidableEq

structure Attempt where
  id : String
  attempt : Nat

/-- What a run of the indexing is for. The budget is what is left of it. -/
structure IndexContext where
  cohortId : String
  revision : Nat
  architecture : Architecture
  retainRecords : Bool
  budget : Option Nat

def IndexContext.key (c : IndexContext) (artifactSha256 inventorySha256 : String) : IndexKey :=
  ⟨c.cohortId, c.revision, c.architecture, artifactSha256, inventorySha256⟩

def invalid {α : Type} : Prog AbiState AbiThrow α :=
  fail (.worker ⟨409, "ABI evidence is incomplete, changed or outside this build attempt"⟩)

/-! ## Retained evidence -/

section
variable (sha256 : Bytes → Hash.Digest) (decode : Bytes → Option AbiDocument)

/-- The rows that the join in `assertAbiChunks` finds for a chunk. -/
def isEvidenceOf (build : Attempt) (artifactSha256 : String) (ref : AbiChunkRef) (row : EvidenceRow) : Bool :=
  row.buildId = build.id && row.attempt = build.attempt && row.sha256 = ref.sha256 && row.kind = .abiRecords &&
    row.artifactSha256 = artifactSha256 && row.size = ref.size && row.start = ref.start && row.files = ref.files &&
    row.symbols = ref.symbols

def assertAbiChunks (build : Attempt) (manifest : AbiInventory) : Prog AbiState AbiThrow Unit := do
  let count ← read fun s =>
    (manifest.chunks.map fun ref => s.evidence.countP (isEvidenceOf build manifest.artifactSha256 ref)).sum
  if count ≠ manifest.chunks.length then invalid else pure ()

def retainedAbiInventory (build : Attempt) (ref : InputObject) (artifactSha256 : String) :
    Prog AbiState AbiThrow AbiInventory := do
  let _ ← ofExcept ((parseAbiReference ref).mapError .input)
  let row ← read fun s => s.evidence.find? fun row =>
    row.buildId = build.id && row.attempt = build.attempt && row.sha256 = ref.sha256 && row.kind = .abiInventory
  match row.bind fun row => row.manifestJson.map (row.size, ·) with
  | none => invalid
  | some (size, json) =>
    if size ≠ ref.size ∨ json.length ≠ ref.size ∨ (sha256 json).hex ≠ ref.sha256 then invalid
    else
      match (decode json).filter isAbiDocument with
      | none => fail (.input "Invalid or incomplete ABI inventory")
      | some (.chunk _) => invalid
      | some (.inventory manifest) =>
        if manifest.artifactSha256 ≠ artifactSha256 then invalid
        else do
          assertAbiChunks build manifest
          pure manifest

def readAbiChunk (ref : InputObject) (artifactSha256 : String) : Prog AbiState AbiThrow AbiChunk := do
  let _ ← ofExcept ((parseAbiReference ref).mapError .input)
  let object ← read fun s => s.objects ref.sha256
  match object with
  | none => invalid
  | some bytes =>
    if bytes.length ≠ ref.size ∨ (sha256 bytes).hex ≠ ref.sha256 then invalid
    else
      match (decode bytes).filter isAbiDocument with
      | none => fail (.input "Invalid or incomplete ABI inventory")
      | some (.inventory _) => invalid
      | some (.chunk chunk) => if chunk.artifactSha256 ≠ artifactSha256 then invalid else pure chunk

/-! ## Indexing -/

/-- What the closure of dependencies and of the ABI looks at. -/
def isRelevant : AbiRecord → Bool
  | .file f => f.nativeKind = some .elf || f.nativeKind = some .staticArchive || f.nativeKind = some .thinArchive
  | .symbol s => s.dynamic

def relevantRecords (chunk : AbiChunk) : List AbiRecord := chunk.records.filter isRelevant

/-- The rows of records from an ordinal on. -/
def rowsFrom (key : IndexKey) (start : Nat) (records : List AbiRecord) : List AbiRecordRow :=
  records.zipIdx.map fun entry => ⟨key, entry.2 + start, entry.1⟩

/-- `INSERT OR IGNORE`. -/
def insertIgnore (rows : List AbiRecordRow) (row : AbiRecordRow) : List AbiRecordRow :=
  if rows.any fun r => r.key = row.key && r.ordinal = row.ordinal then rows else rows ++ [row]

def persistQualificationAbiRecords (key : IndexKey) (start : Nat) (records : List AbiRecord) : Prog AbiState AbiThrow Unit :=
  if records = [] then pure ()
  else modify fun s => { s with records := (rowsFrom key start records).foldl insertIgnore s.records }

def setProgress (key : IndexKey) (nextChunk : Nat) : Prog AbiState AbiThrow Unit :=
  modify fun s => { s with
    progress := if s.progress.any (·.key = key) then
        s.progress.map fun row => if row.key = key then { row with nextChunk := nextChunk } else row
      else s.progress ++ [⟨key, nextChunk⟩] }

/-- The row of a finished index, of which there is one. -/
def insertIndexState (row : IndexStateRow) (nextChunk : Nat) : Prog AbiState AbiThrow Unit :=
  transact fun s =>
    if s.indexStates.any (·.key = row.key) then (.error .unique, s)
    else (.ok (), { s with indexStates := s.indexStates ++ [row], finished := s.finished ++ [(row.key, nextChunk)] })

/-- What a run has counted and kept. -/
structure Indexing where
  budget : Option Nat
  indexedCount : Nat
  records : List AbiRecord

def continuation : AbiThrow :=
  .policy ⟨409, "ABI index continuation required; retry qualification to resume retained chunks."⟩

def outOfMemory : AbiThrow :=
  .policy ⟨409, "Candidate ABI index is unavailable within the bounded qualification memory budget."⟩

/-- The records are kept unless there are too many of them. -/
def keepRecords (retain : Bool) (w : Indexing) (relevant : List AbiRecord) : Except AbiThrow Indexing :=
  let counted := { w with indexedCount := w.indexedCount + relevant.length }
  if retain = false then .ok counted
  else if w.records.length + relevant.length > maxIndexRecords then .error outOfMemory
  else .ok { counted with records := w.records ++ relevant }

def indexChunk (artifactSha256 : String) (target : Option (IndexKey × Bool)) (ref : AbiChunkRef) (chunkIndex : Nat)
    (w : Indexing) : Prog AbiState AbiThrow Indexing := do
  if w.budget = some 0 then fail continuation
  else
    let chunk ← readAbiChunk sha256 decode ref.toInputObject artifactSha256
    if let some (key, _) := target then persistQualificationAbiRecords key chunk.start (relevantRecords chunk)
    let w ← ofExcept (keepRecords (target.all (·.2)) { w with budget := w.budget.map (· - 1) } (relevantRecords chunk))
    if let some (key, _) := target then setProgress key (chunkIndex + 1)
    pure w

/-- The chunks from `chunkIndex` on, without those before the cursor. -/
def indexChunks (artifactSha256 : String) (target : Option (IndexKey × Bool)) (nextChunk : Nat) :
    Nat → List AbiChunkRef → Indexing → Prog AbiState AbiThrow Indexing
  | _, [], w => pure w
  | chunkIndex, ref :: refs, w =>
    if chunkIndex < nextChunk then indexChunks artifactSha256 target nextChunk (chunkIndex + 1) refs w
    else do
      let w ← indexChunk sha256 decode artifactSha256 target ref chunkIndex w
      indexChunks artifactSha256 target nextChunk (chunkIndex + 1) refs w

/-- `readAbi` of a reference. The test before the last row, of a number that is
added to and taken off again, is always true. -/
def readAbi (ref : InputObject) (artifactSha256 : String) (build : Attempt) (indexContext : Option IndexContext) :
    Prog AbiState AbiThrow QualificationAbi := do
  let _ ← ofExcept ((parseAbiReference ref).mapError .input)
  let manifest ← retainedAbiInventory sha256 decode build ref artifactSha256
  match indexContext with
  | none => do
    let w ← indexChunks sha256 decode artifactSha256 none 0 0 manifest.chunks ⟨none, 0, []⟩
    pure ⟨some ref.sha256, artifactSha256, manifest.typeAbi, w.records⟩
  | some context => do
    let key := context.key artifactSha256 ref.sha256
    let indexed ← read fun s => s.indexStates.find? (·.key = key)
    match indexed with
    | some row => pure ⟨some ref.sha256, artifactSha256, row.typeAbi, []⟩
    | none => do
      let progress ← read fun s => s.progress.find? (·.key = key)
      let nextChunk := (progress.map (·.nextChunk)).getD 0
      let w ← indexChunks sha256 decode artifactSha256 (some (key, context.retainRecords)) nextChunk 0 manifest.chunks
        ⟨context.budget, 0, []⟩
      insertIndexState ⟨key, manifest.typeAbi, w.indexedCount⟩ nextChunk
      modify fun s => { s with progress := s.progress.filter (·.key ≠ key) }
      pure ⟨some ref.sha256, artifactSha256, manifest.typeAbi, w.records⟩

end

/-- `indexedQualificationAbiRecords`, in the order of the ordinals. -/
def indexedQualificationAbiRecords (key : IndexKey) (s : AbiState) : List AbiRecord :=
  ((s.records.filter (·.key = key)).insertionSort fun a b => a.ordinal ≤ b.ordinal).map (·.record)

end Omapkg.Server.Qualification
