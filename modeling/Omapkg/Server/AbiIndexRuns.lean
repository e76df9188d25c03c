import Mathlib.Data.List.Sort
import Omapkg.Server.AbiIndex
/-!
# Runs of the indexing

Whatever runs of `readAbi` stop and overlap, a finished index has the relevant
records of all chunks, in order and each once. Its count has those of the
chunks that the run that finished it went on from.
-/

namespace Omapkg.Server.Qualification

open Utf Prog

/-! ## What chunks are indexed as -/

def chunkRows (key : IndexKey) (chunk : AbiChunk) : List AbiRecordRow := rowsFrom key chunk.start (relevantRecords chunk)

theorem mem_rowsFrom {key : IndexKey} {start : Nat} {records : List AbiRecord} {row : AbiRecordRow} :
    row ∈ rowsFrom key start records ↔ row.key = key ∧ start ≤ row.ordinal ∧ records[row.ordinal - start]? = some row.record := by
  obtain ⟨k, ordinal, record⟩ := row
  simp only [rowsFrom, List.mem_map, Prod.exists, List.mem_zipIdx_iff_getElem?, AbiRecordRow.mk.injEq]
  constructor
  · rintro ⟨r, i, hi, rfl, rfl, rfl⟩
    exact ⟨rfl, Nat.le_add_left _ _, by simpa using hi⟩
  · rintro ⟨rfl, hstart, hrecord⟩
    exact ⟨record, ordinal - start, hrecord, rfl, Nat.sub_add_cancel hstart, rfl⟩

theorem length_relevantRecords (chunk : AbiChunk) : (relevantRecords chunk).length ≤ chunk.records.length :=
  List.length_filter_le _ _

/-- The ordinals of a chunk's rows are among those of its records. -/
theorem chunkRows_bounds {key : IndexKey} {chunk : AbiChunk} {row : AbiRecordRow} (h : row ∈ chunkRows key chunk) :
    row.key = key ∧ chunk.start ≤ row.ordinal ∧ row.ordinal < chunk.start + chunk.records.length := by
  obtain ⟨hkey, hstart, hrecord⟩ := mem_rowsFrom.mp h
  have hlt := (List.getElem?_eq_some_iff.mp hrecord).1
  have hle := length_relevantRecords chunk
  exact ⟨hkey, hstart, by omega⟩

theorem chunkRows_ordinal {key : IndexKey} {chunk : AbiChunk} {a b : AbiRecordRow} (ha : a ∈ chunkRows key chunk)
    (hb : b ∈ chunkRows key chunk) (h : a.ordinal = b.ordinal) : a = b := by
  obtain ⟨hakey, -, harecord⟩ := mem_rowsFrom.mp ha
  obtain ⟨hbkey, -, hbrecord⟩ := mem_rowsFrom.mp hb
  rw [h, hbrecord] at harecord
  cases a
  cases b
  simp_all

theorem rowsFrom_pairwise (key : IndexKey) (start : Nat) (records : List AbiRecord) :
    (rowsFrom key start records).Pairwise fun a b => a.ordinal < b.ordinal := by
  unfold rowsFrom
  rw [List.pairwise_map]
  have hsnd : (records.zipIdx.map Prod.snd).Pairwise (· < ·) := by
    rw [List.zipIdx_map_snd]
    exact List.pairwise_lt_range'
  exact (List.pairwise_map.mp hsnd).imp fun h => Nat.add_lt_add_right h start

theorem rowsFrom_records (key : IndexKey) (start : Nat) (records : List AbiRecord) :
    (rowsFrom key start records).map (·.record) = records := by
  simp [rowsFrom, Function.comp_def]

/-! ## Chunks one after the other -/

/-- Each chunk starts where the one before it ends. -/
def Contiguous : Nat → List AbiChunk → Prop
  | _, [] => True
  | start, chunk :: chunks => chunk.start = start ∧ Contiguous (start + chunk.records.length) chunks

def allRows (key : IndexKey) (chunks : List AbiChunk) : List AbiRecordRow := chunks.flatMap (chunkRows key)

theorem allRows_lower {key : IndexKey} {chunks : List AbiChunk} {start : Nat} (h : Contiguous start chunks)
    {row : AbiRecordRow} (hrow : row ∈ allRows key chunks) : start ≤ row.ordinal := by
  induction chunks generalizing start with
  | nil => cases hrow
  | cons chunk chunks ih =>
    obtain ⟨rfl, hrest⟩ := h
    rcases List.mem_append.mp hrow with hrow | hrow
    · exact (chunkRows_bounds hrow).2.1
    · have := ih hrest hrow
      omega

theorem allRows_pairwise {key : IndexKey} {chunks : List AbiChunk} {start : Nat} (h : Contiguous start chunks) :
    (allRows key chunks).Pairwise fun a b => a.ordinal < b.ordinal := by
  induction chunks generalizing start with
  | nil => exact .nil
  | cons chunk chunks ih =>
    obtain ⟨rfl, hrest⟩ := h
    refine List.pairwise_append.mpr ⟨rowsFrom_pairwise _ _ _, ih hrest, fun a ha b hb => ?_⟩
    exact Nat.lt_of_lt_of_le (chunkRows_bounds ha).2.2 (allRows_lower hrest hb)

theorem allRows_ordinal {key : IndexKey} {chunks : List AbiChunk} {start : Nat} (h : Contiguous start chunks)
    {a b : AbiRecordRow} (ha : a ∈ allRows key chunks) (hb : b ∈ allRows key chunks) (hab : a.ordinal = b.ordinal) :
    a = b := by
  have hnodup : ((allRows key chunks).map (·.ordinal)).Nodup :=
    List.pairwise_map.mpr ((allRows_pairwise h).imp Nat.ne_of_lt)
  exact List.inj_on_of_nodup_map hnodup ha hb hab

theorem allRows_records (key : IndexKey) (chunks : List AbiChunk) :
    (allRows key chunks).map (·.record) = chunks.flatMap relevantRecords := by
  simp only [allRows, List.map_flatMap, chunkRows, rowsFrom_records]

/-! ## Inserting rows -/

/-- The rows have one record for each key and ordinal. -/
def Once (rows : List AbiRecordRow) : Prop := (rows.map fun row => (row.key, row.ordinal)).Nodup

theorem insertIgnore_keeps {rows : List AbiRecordRow} {row r : AbiRecordRow} (h : r ∈ rows) : r ∈ insertIgnore rows row := by
  unfold insertIgnore
  split
  · exact h
  · exact List.mem_append_left _ h

theorem insertIgnore_mem {rows : List AbiRecordRow} {row r : AbiRecordRow} (h : r ∈ insertIgnore rows row) :
    r ∈ rows ∨ r = row := by
  unfold insertIgnore at h
  split at h
  · exact .inl h
  · exact (List.mem_append.mp h).imp_right List.mem_singleton.mp

theorem insertIgnore_once {rows : List AbiRecordRow} {row : AbiRecordRow} (h : Once rows) : Once (insertIgnore rows row) := by
  unfold insertIgnore
  split
  · exact h
  · next hnone =>
    unfold Once
    rw [List.map_append, List.map_singleton, List.nodup_append]
    refine ⟨h, List.nodup_singleton _, ?_⟩
    rintro _ hkey _ hrow rfl
    obtain ⟨r, hr, hsame⟩ := List.mem_map.mp hkey
    rw [List.mem_singleton.mp hrow, Prod.mk.injEq] at hsame
    exact hnone (List.any_eq_true.mpr ⟨r, hr, by simp [hsame.1, hsame.2]⟩)

/-- A row is there afterwards unless another has its place. -/
theorem insertIgnore_self {rows : List AbiRecordRow} {row : AbiRecordRow}
    (h : ∀ r ∈ rows, r.key = row.key → r.ordinal = row.ordinal → r = row) : row ∈ insertIgnore rows row := by
  unfold insertIgnore
  split
  · next hany =>
    obtain ⟨r, hr, hsame⟩ := List.any_eq_true.mp hany
    simp only [Bool.and_eq_true, decide_eq_true_eq] at hsame
    rwa [← h r hr hsame.1 hsame.2]
  · exact List.mem_append_right _ List.mem_cons_self

theorem foldl_insertIgnore_keeps {new rows : List AbiRecordRow} {r : AbiRecordRow} (h : r ∈ rows) :
    r ∈ new.foldl insertIgnore rows := by
  induction new generalizing rows with
  | nil => exact h
  | cons row new ih => exact ih (insertIgnore_keeps h)

theorem foldl_insertIgnore_mem {new rows : List AbiRecordRow} {r : AbiRecordRow} (h : r ∈ new.foldl insertIgnore rows) :
    r ∈ rows ∨ r ∈ new := by
  induction new generalizing rows with
  | nil => exact .inl h
  | cons row new ih =>
    rcases ih h with h | h
    · rcases insertIgnore_mem h with h | rfl
      · exact .inl h
      · exact .inr List.mem_cons_self
    · exact .inr (List.mem_cons_of_mem _ h)

theorem foldl_insertIgnore_once {new rows : List AbiRecordRow} (h : Once rows) : Once (new.foldl insertIgnore rows) := by
  induction new generalizing rows with
  | nil => exact h
  | cons row new ih => exact ih (insertIgnore_once h)

/-- Rows that agree on their places with each other and with what is there are all there afterwards. -/
theorem foldl_insertIgnore_all {new rows : List AbiRecordRow}
    (h : ∀ r ∈ rows ++ new, ∀ row ∈ new, r.key = row.key → r.ordinal = row.ordinal → r = row) {row : AbiRecordRow}
    (hrow : row ∈ new) : row ∈ new.foldl insertIgnore rows := by
  induction new generalizing rows with
  | nil => cases hrow
  | cons first new ih =>
    rcases List.mem_cons.mp hrow with rfl | hrow
    · have hself : row ∈ insertIgnore rows row :=
        insertIgnore_self fun r hr => h r (List.mem_append_left _ hr) row List.mem_cons_self
      exact @foldl_insertIgnore_keeps new (insertIgnore rows row) row hself
    · refine ih (fun r hr other hother => h r ?_ other (List.mem_cons_of_mem _ hother)) hrow
      rcases List.mem_append.mp hr with hr | hr
      · rcases insertIgnore_mem hr with hr | rfl
        · exact List.mem_append_left _ hr
        · exact List.mem_append_right _ List.mem_cons_self
      · exact List.mem_append_right _ (List.mem_cons_of_mem _ hr)

/-! ## Documents of digests -/

section
variable (sha256 : Bytes → Hash.Digest) (decode : Bytes → Option AbiDocument) (stored : Bytes → Prop)

/-- The digest is of stored bytes that are this document. -/
def Document (digest : String) (document : AbiDocument) : Prop :=
  ∃ bytes, stored bytes ∧ (sha256 bytes).hex = digest ∧ (decode bytes).filter isAbiDocument = some document

def ChunkOf (ref : AbiChunkRef) (chunk : AbiChunk) : Prop := Document sha256 decode stored ref.sha256 (.chunk chunk)

/-- The chunks are what the inventory says of them. -/
def Described (inventory : AbiInventory) : Prop :=
  ∀ ref ∈ inventory.chunks, ∀ chunk, ChunkOf sha256 decode stored ref chunk →
    chunk.start = ref.start ∧ chunk.records.length = ref.files + ref.symbols

def Inventory (digest : String) (inventory : AbiInventory) : Prop :=
  Document sha256 decode stored digest (.inventory inventory) ∧ Described sha256 decode stored inventory

/-- Everything that is kept as evidence is stored, once for a build's attempt and
a digest, with columns that are its document's. -/
structure EvidenceKept (s : AbiState) : Prop where
  manifests : ∀ row ∈ s.evidence, ∀ json, row.manifestJson = some json → stored json
  objects : ∀ digest bytes, s.objects digest = some bytes → stored bytes
  unique : (s.evidence.map EvidenceRow.key).Nodup
  described : ∀ row ∈ s.evidence, row.kind = .abiRecords → ∀ chunk,
    Document sha256 decode stored row.sha256 (.chunk chunk) →
      chunk.start = row.start ∧ chunk.records.length = row.files + row.symbols

/-- The rows of a chunk are there. -/
def Persisted (key : IndexKey) (ref : AbiChunkRef) (s : AbiState) : Prop :=
  ∀ chunk, ChunkOf sha256 decode stored ref chunk → ∀ row ∈ chunkRows key chunk, row ∈ s.records

/-- The count is of the chunks from `nextChunk` on. -/
def CountsFrom (refs : List AbiChunkRef) (nextChunk count : Nat) : Prop :=
  ∀ chunks, List.Forall₂ (ChunkOf sha256 decode stored) refs chunks →
    count = ((chunks.drop nextChunk).map fun chunk => (relevantRecords chunk).length).sum

structure IndexOk (s : AbiState) : Prop where
  retained : EvidenceKept sha256 decode stored s
  once : Once s.records
  placed : ∀ row ∈ s.records, ∃ inventory, Inventory sha256 decode stored row.key.inventorySha256 inventory ∧
    ∃ ref ∈ inventory.chunks, ∃ chunk, ChunkOf sha256 decode stored ref chunk ∧ row ∈ chunkRows row.key chunk
  progress : ∀ row ∈ s.progress, ∀ inventory, Inventory sha256 decode stored row.key.inventorySha256 inventory →
    ∀ ref ∈ inventory.chunks.take row.nextChunk, Persisted sha256 decode stored row.key ref s
  indexed : ∀ row ∈ s.indexStates, ∃ inventory, Inventory sha256 decode stored row.key.inventorySha256 inventory ∧
    (∀ ref ∈ inventory.chunks, Persisted sha256 decode stored row.key ref s) ∧
      ∃ n, (row.key, n) ∈ s.finished ∧ CountsFrom sha256 decode stored inventory.chunks n row.recordCount
  keys : (s.indexStates.map (·.key)).Nodup
  finished : s.finished.map (·.1) = s.indexStates.map (·.key)

/-- No two of the stored byte strings have one digest. -/
def Collisionless : Prop := ∀ a b, stored a → stored b → (sha256 a).hex = (sha256 b).hex → a = b

end

/-- Rows are only added. -/
def Indexes (s s' : AbiState) : Prop := ∀ row ∈ s.records, row ∈ s'.records

instance : Std.Refl Indexes := ⟨fun _ _ h => h⟩

instance : IsTrans AbiState Indexes := ⟨fun _ _ _ h h' row hrow => h' row (h row hrow)⟩

section
variable {sha256 : Bytes → Hash.Digest} {decode : Bytes → Option AbiDocument} {stored : Bytes → Prop}

theorem Persisted.grows {key : IndexKey} {ref : AbiChunkRef} {s s' : AbiState}
    (h : Persisted sha256 decode stored key ref s) (hs : Indexes s s') : Persisted sha256 decode stored key ref s' :=
  fun chunk hchunk row hrow => hs row (h chunk hchunk row hrow)

theorem Document.unique (hsha : Collisionless sha256 stored) {digest : String} {a b : AbiDocument}
    (ha : Document sha256 decode stored digest a) (hb : Document sha256 decode stored digest b) : a = b := by
  obtain ⟨bytes, hbytes, hdigest, hdecode⟩ := ha
  obtain ⟨bytes', hbytes', hdigest', hdecode'⟩ := hb
  obtain rfl := hsha _ _ hbytes hbytes' (hdigest.trans hdigest'.symm)
  exact Option.some.inj (hdecode.symm.trans hdecode')

theorem ChunkOf.unique (hsha : Collisionless sha256 stored) {ref : AbiChunkRef} {a b : AbiChunk}
    (ha : ChunkOf sha256 decode stored ref a) (hb : ChunkOf sha256 decode stored ref b) : a = b :=
  AbiDocument.chunk.inj (Document.unique hsha ha hb)

theorem Inventory.unique (hsha : Collisionless sha256 stored) {digest : String} {a b : AbiInventory}
    (ha : Inventory sha256 decode stored digest a) (hb : Inventory sha256 decode stored digest b) : a = b :=
  AbiDocument.inventory.inj (Document.unique hsha ha.1 hb.1)

/-! ### Where chunks lie -/

theorem chunksFollow_cons {seen : List String} {count : Nat} {chunk : AbiChunkRef} {chunks : List AbiChunkRef}
    (h : chunksFollow seen count (chunk :: chunks) = true) :
    chunk.start = count ∧ chunk.files + chunk.symbols = chunk.count ∧
      chunksFollow (chunk.sha256 :: seen) (count + chunk.count) chunks = true := by
  simp only [chunksFollow, Bool.and_eq_true, decide_eq_true_eq] at h
  exact ⟨h.1.1.1.1.1.2, h.1.2, h.2⟩

theorem chunksFollow_lower {seen : List String} {count : Nat} {chunks : List AbiChunkRef}
    (h : chunksFollow seen count chunks = true) : ∀ ref ∈ chunks, count ≤ ref.start := by
  induction chunks generalizing seen count with
  | nil => simp
  | cons chunk chunks ih =>
    obtain ⟨hstart, -, hrest⟩ := chunksFollow_cons h
    intro ref href
    rcases List.mem_cons.mp href with rfl | href
    · omega
    · have := ih hrest ref href
      omega

theorem chunksFollow_pairwise {seen : List String} {count : Nat} {chunks : List AbiChunkRef}
    (h : chunksFollow seen count chunks = true) :
    chunks.Pairwise fun a b => a.start + (a.files + a.symbols) ≤ b.start := by
  induction chunks generalizing seen count with
  | nil => exact .nil
  | cons chunk chunks ih =>
    obtain ⟨hstart, hcount, hrest⟩ := chunksFollow_cons h
    refine .cons (fun ref href => ?_) (ih hrest)
    have := chunksFollow_lower hrest ref href
    omega

theorem Inventory.follow {digest : String} {inventory : AbiInventory} (h : Inventory sha256 decode stored digest inventory) :
    chunksFollow [] 0 inventory.chunks = true := by
  obtain ⟨⟨bytes, -, -, hdecode⟩, -⟩ := h
  have hdocument := (Option.filter_eq_some_iff.mp hdecode).2
  simp only [isAbiDocument, Bool.and_eq_true] at hdocument
  exact hdocument.1.1.2

/-- One ordinal is of one chunk of the inventory. -/
theorem Inventory.same_ref {digest : String} {inventory : AbiInventory}
    (h : Inventory sha256 decode stored digest inventory) {ref ref' : AbiChunkRef} (href : ref ∈ inventory.chunks)
    (href' : ref' ∈ inventory.chunks) {ordinal : Nat}
    (hlies : ref.start ≤ ordinal ∧ ordinal < ref.start + (ref.files + ref.symbols))
    (hlies' : ref'.start ≤ ordinal ∧ ordinal < ref'.start + (ref'.files + ref'.symbols)) : ref = ref' := by
  by_contra hne
  have hapart : inventory.chunks.Pairwise fun a b =>
      a.start + (a.files + a.symbols) ≤ b.start ∨ b.start + (b.files + b.symbols) ≤ a.start :=
    (chunksFollow_pairwise h.follow).imp .inl
  have hsymm : Std.Symm fun a b : AbiChunkRef =>
      a.start + (a.files + a.symbols) ≤ b.start ∨ b.start + (b.files + b.symbols) ≤ a.start := ⟨fun _ _ => Or.symm⟩
  rcases hapart.forall href href' hne with hle | hle <;> omega

theorem Inventory.lies {digest : String} {inventory : AbiInventory} (h : Inventory sha256 decode stored digest inventory)
    {ref : AbiChunkRef} (href : ref ∈ inventory.chunks) {chunk : AbiChunk} (hchunk : ChunkOf sha256 decode stored ref chunk)
    {key : IndexKey} {row : AbiRecordRow} (hrow : row ∈ chunkRows key chunk) :
    ref.start ≤ row.ordinal ∧ row.ordinal < ref.start + (ref.files + ref.symbols) := by
  obtain ⟨hstart, hlength⟩ := h.2 ref href chunk hchunk
  obtain ⟨-, hlower, hupper⟩ := chunkRows_bounds hrow
  omega

theorem contiguous_of_follow {inventory : AbiInventory} (hdescribed : Described sha256 decode stored inventory)
    {refs : List AbiChunkRef} {chunks : List AbiChunk} (hrefs : ∀ ref ∈ refs, ref ∈ inventory.chunks)
    (hchunks : List.Forall₂ (ChunkOf sha256 decode stored) refs chunks) {seen : List String} {count : Nat}
    (h : chunksFollow seen count refs = true) : Contiguous count chunks := by
  induction hchunks generalizing seen count with
  | nil => trivial
  | @cons ref chunk refs chunks hchunk hrest ih =>
    obtain ⟨hstart, hcount, hfollow⟩ := chunksFollow_cons h
    obtain ⟨hchunkStart, hlength⟩ := hdescribed ref (hrefs ref List.mem_cons_self) chunk hchunk
    refine ⟨hchunkStart.trans hstart, ?_⟩
    rw [hlength, hcount]
    exact ih (fun r hr => hrefs r (List.mem_cons_of_mem _ hr)) hfollow

/-! ### Reading evidence -/

/-- A program that keeps the index, whatever runs beside it. -/
abbrev KeepsIndex {α : Type} (sha256 : Bytes → Hash.Digest) (decode : Bytes → Option AbiDocument) (stored : Bytes → Prop)
    (Q : α → AbiState → Prop) (p : Prog AbiState AbiThrow α) (s : AbiState) : Prop :=
  Keeps (IndexOk sha256 decode stored) (fun _ _ => True) Indexes Indexes Q p s

theorem sum_le_length {α : Type} {f : α → Nat} {l : List α} (hle : ∀ a ∈ l, f a ≤ 1) : (l.map f).sum ≤ l.length := by
  induction l with
  | nil => exact Nat.le_refl _
  | cons a l ih =>
    have ha := hle a List.mem_cons_self
    have hl := ih fun b hb => hle b (List.mem_cons_of_mem _ hb)
    rw [List.map_cons, List.sum_cons, List.length_cons]
    omega

theorem eq_one_of_sum {α : Type} {f : α → Nat} {l : List α} (hle : ∀ a ∈ l, f a ≤ 1) (h : (l.map f).sum = l.length) :
    ∀ a ∈ l, f a = 1 := by
  induction l with
  | nil => simp
  | cons a l ih =>
    have hrest := sum_le_length fun b hb => hle b (List.mem_cons_of_mem _ hb)
    have ha := hle a List.mem_cons_self
    rw [List.map_cons, List.sum_cons, List.length_cons] at h
    intro b hb
    rcases List.mem_cons.mp hb with rfl | hb
    · omega
    · exact ih (fun c hc => hle c (List.mem_cons_of_mem _ hc)) (by omega) b hb

theorem EvidenceKept.same {s s' : AbiState} (h : EvidenceKept sha256 decode stored s) (hevidence : s'.evidence = s.evidence)
    (hobjects : s'.objects = s.objects) : EvidenceKept sha256 decode stored s' :=
  ⟨hevidence ▸ h.manifests, hobjects ▸ h.objects, hevidence ▸ h.unique, hevidence ▸ h.described⟩

theorem EvidenceKept.countP_le {s : AbiState} (h : EvidenceKept sha256 decode stored s) (build : Attempt) (artifactSha256 : String)
    (ref : AbiChunkRef) : s.evidence.countP (isEvidenceOf build artifactSha256 ref) ≤ 1 := by
  have hkey : ∀ row ∈ s.evidence, isEvidenceOf build artifactSha256 ref row = true →
      decide (row.key = (build.id, build.attempt, ref.sha256)) = true := by
    intro row _ hrow
    simp only [isEvidenceOf, Bool.and_eq_true, decide_eq_true_eq] at hrow
    obtain ⟨⟨⟨⟨⟨⟨⟨⟨hbuild, hattempt⟩, hsha⟩, -⟩, -⟩, -⟩, -⟩, -⟩, -⟩ := hrow
    simp [EvidenceRow.key, hbuild, hattempt, hsha]
  calc s.evidence.countP (isEvidenceOf build artifactSha256 ref)
      ≤ s.evidence.countP fun row => decide (row.key = (build.id, build.attempt, ref.sha256)) :=
        List.countP_mono_left hkey
    _ = (s.evidence.map EvidenceRow.key).count (build.id, build.attempt, ref.sha256) := by
        rw [List.count, List.countP_map]
        exact List.countP_congr fun row _ => by simp
    _ ≤ 1 := List.nodup_iff_count_le_one.mp h.unique _

theorem EvidenceKept.described_of_count {s : AbiState} (h : EvidenceKept sha256 decode stored s) {build : Attempt}
    {inventory : AbiInventory}
    (hcount : (inventory.chunks.map fun ref =>
      s.evidence.countP (isEvidenceOf build inventory.artifactSha256 ref)).sum = inventory.chunks.length) :
    Described sha256 decode stored inventory := by
  intro ref href chunk hchunk
  have hone := eq_one_of_sum (fun ref _ => h.countP_le build inventory.artifactSha256 ref) hcount ref href
  have hpos : 0 < s.evidence.countP (isEvidenceOf build inventory.artifactSha256 ref) := hone ▸ Nat.one_pos
  obtain ⟨row, hrow, hevidence⟩ := List.countP_pos_iff.mp hpos
  simp only [isEvidenceOf, Bool.and_eq_true, decide_eq_true_eq] at hevidence
  obtain ⟨⟨⟨⟨⟨⟨⟨⟨-, -⟩, hsha⟩, hkind⟩, -⟩, -⟩, hstart⟩, hfiles⟩, hsymbols⟩ := hevidence
  rw [← hstart, ← hfiles, ← hsymbols]
  exact h.described row hrow hkind chunk (hsha ▸ hchunk)

theorem assertAbiChunks_keeps (build : Attempt) (inventory : AbiInventory) (s : AbiState) :
    KeepsIndex sha256 decode stored (fun _ _ => Described sha256 decode stored inventory)
      (assertAbiChunks build inventory) s := by
  refine keeps_read_bind fun s₁ hi₁ _ => ?_
  split
  · trivial
  · next hcount =>
    rw [not_not] at hcount
    exact fun _ _ _ => hi₁.retained.described_of_count hcount

theorem retainedAbiInventory_keeps (build : Attempt) (ref : Inputs.InputObject) (artifactSha256 : String) (s : AbiState) :
    KeepsIndex sha256 decode stored (fun inventory _ => Inventory sha256 decode stored ref.sha256 inventory)
      (retainedAbiInventory sha256 decode build ref artifactSha256) s := by
  refine keeps_ofExcept_bind fun _ _ => keeps_read_bind fun s₁ hi₁ _ => ?_
  split
  · trivial
  · next size json hrow =>
    obtain ⟨row, hfind, hjson⟩ := Option.bind_eq_some_iff.mp hrow
    obtain ⟨bytes, hmanifest, hpair⟩ := Option.map_eq_some_iff.mp hjson
    cases hpair
    split
    · trivial
    · next hchecks =>
      simp only [not_or, not_not] at hchecks
      split
      · trivial
      · trivial
      · next inventory hdocument =>
        split
        · trivial
        · refine keeps_bind hi₁ (assertAbiChunks_keeps build inventory s₁) fun _ s₂ _ hdescribed => ?_
          have hstored := hi₁.retained.manifests row (List.mem_of_find?_eq_some hfind) _ hmanifest
          exact fun _ _ _ => ⟨⟨_, hstored, hchecks.2.2, hdocument⟩, hdescribed⟩

theorem readAbiChunk_keeps (ref : AbiChunkRef) (artifactSha256 : String) (s : AbiState) :
    KeepsIndex sha256 decode stored (fun chunk _ => ChunkOf sha256 decode stored ref chunk)
      (readAbiChunk sha256 decode ref.toInputObject artifactSha256) s := by
  refine keeps_ofExcept_bind fun _ _ => keeps_read_bind fun s₁ hi₁ _ => ?_
  split
  · trivial
  · next bytes hobject =>
    split
    · trivial
    · next hchecks =>
      simp only [not_or, not_not] at hchecks
      split
      · trivial
      · trivial
      · next chunk hdocument =>
        split
        · trivial
        · exact fun _ _ _ => ⟨bytes, hi₁.retained.objects _ _ hobject, hchecks.2, hdocument⟩

/-! ### Writing rows -/

/-- Two rows in one place that are of chunks of one inventory are one row. -/
theorem Inventory.same_row (hsha : Collisionless sha256 stored) {digest : String} {inventory : AbiInventory}
    (h : Inventory sha256 decode stored digest inventory) {key : IndexKey} {ref ref' : AbiChunkRef}
    (href : ref ∈ inventory.chunks) (href' : ref' ∈ inventory.chunks) {chunk chunk' : AbiChunk}
    (hchunk : ChunkOf sha256 decode stored ref chunk) (hchunk' : ChunkOf sha256 decode stored ref' chunk')
    {row row' : AbiRecordRow} (hrow : row ∈ chunkRows key chunk) (hrow' : row' ∈ chunkRows key chunk')
    (hordinal : row.ordinal = row'.ordinal) : row = row' := by
  have hlies := h.lies href hchunk hrow
  obtain rfl := h.same_ref href href' hlies (hordinal ▸ h.lies href' hchunk' hrow')
  obtain rfl := hchunk.unique hsha hchunk'
  exact chunkRows_ordinal hrow hrow' hordinal

/-- The state with the rows of a chunk. -/
def withRows (key : IndexKey) (chunk : AbiChunk) (s : AbiState) : AbiState :=
  { s with records := (chunkRows key chunk).foldl insertIgnore s.records }

theorem withRows_indexes (key : IndexKey) (chunk : AbiChunk) (s : AbiState) : Indexes s (withRows key chunk s) :=
  fun _ hrow => foldl_insertIgnore_keeps hrow

theorem IndexOk.withRows (hsha : Collisionless sha256 stored) {s : AbiState} (hi : IndexOk sha256 decode stored s)
    {key : IndexKey} {inventory : AbiInventory} (hinventory : Inventory sha256 decode stored key.inventorySha256 inventory)
    {ref : AbiChunkRef} (href : ref ∈ inventory.chunks) {chunk : AbiChunk} (hchunk : ChunkOf sha256 decode stored ref chunk) :
    IndexOk sha256 decode stored (withRows key chunk s) ∧
      Persisted sha256 decode stored key ref (withRows key chunk s) := by
  have hgrows := withRows_indexes key chunk s
  have hplaces : ∀ r ∈ s.records ++ chunkRows key chunk, ∀ row ∈ chunkRows key chunk, r.key = row.key →
      r.ordinal = row.ordinal → r = row := by
    intro r hr row hrow hkey hordinal
    rcases List.mem_append.mp hr with hr | hr
    · obtain ⟨other, hother, ref', href', chunk', hchunk', hrow'⟩ := hi.placed r hr
      have hrowKey : row.key = key := (chunkRows_bounds hrow).1
      rw [hkey, hrowKey] at hother hrow'
      obtain rfl := hother.unique hsha hinventory
      exact hinventory.same_row hsha href' href hchunk' hchunk hrow' hrow hordinal
    · exact chunkRows_ordinal hr hrow hordinal
  refine ⟨⟨hi.retained.same rfl rfl, foldl_insertIgnore_once hi.once, ?_, ?_, ?_, hi.keys, hi.finished⟩, ?_⟩
  · intro row hrow
    rcases foldl_insertIgnore_mem hrow with hrow | hrow
    · exact hi.placed row hrow
    · rw [(chunkRows_bounds hrow).1]
      exact ⟨inventory, hinventory, ref, href, chunk, hchunk, hrow⟩
  · exact fun row hrow other hother r hr => (hi.progress row hrow other hother r hr).grows hgrows
  · intro row hrow
    obtain ⟨other, hother, hpersisted, hfinished⟩ := hi.indexed row hrow
    exact ⟨other, hother, fun r hr => (hpersisted r hr).grows hgrows, hfinished⟩
  · intro chunk' hchunk' row hrow
    obtain rfl := hchunk.unique hsha hchunk'
    exact foldl_insertIgnore_all hplaces hrow

theorem persist_keeps (hsha : Collisionless sha256 stored) {key : IndexKey} {inventory : AbiInventory}
    (hinventory : Inventory sha256 decode stored key.inventorySha256 inventory) {ref : AbiChunkRef}
    (href : ref ∈ inventory.chunks) {chunk : AbiChunk} (hchunk : ChunkOf sha256 decode stored ref chunk) (s : AbiState) :
    KeepsIndex sha256 decode stored (fun _ s => Persisted sha256 decode stored key ref s)
      (persistQualificationAbiRecords key chunk.start (relevantRecords chunk)) s := by
  unfold persistQualificationAbiRecords
  split
  · next hnone =>
    intro s' _ _ other hother row hrow
    obtain rfl := hchunk.unique hsha hother
    rw [chunkRows, hnone] at hrow
    cases hrow
  · intro s₁ hi₁ _ _
    obtain ⟨hi₂, hpersisted⟩ := hi₁.withRows hsha hinventory href hchunk
    exact ⟨hi₂, withRows_indexes key chunk s₁, fun _ _ hs => hpersisted.grows hs⟩

theorem setProgress_keeps {key : IndexKey} {nextChunk : Nat} {s : AbiState}
    (hrows : ∀ inventory, Inventory sha256 decode stored key.inventorySha256 inventory →
      ∀ ref ∈ inventory.chunks.take nextChunk, Persisted sha256 decode stored key ref s) :
    KeepsIndex sha256 decode stored (fun _ _ => True) (setProgress key nextChunk) s := by
  intro s₁ hi₁ hs _
  have hnew : ∀ row : ProgressRow, row.key = key → row.nextChunk = nextChunk → ∀ inventory,
      Inventory sha256 decode stored row.key.inventorySha256 inventory →
      ∀ ref ∈ inventory.chunks.take row.nextChunk, Persisted sha256 decode stored row.key ref s₁ := by
    rintro ⟨_, _⟩ rfl rfl inventory hinventory ref href
    exact (hrows inventory hinventory ref href).grows hs
  refine ⟨⟨hi₁.retained.same rfl rfl, hi₁.once, hi₁.placed, ?_, hi₁.indexed, hi₁.keys, hi₁.finished⟩, fun _ h => h,
    fun _ _ _ => trivial⟩
  intro row hrow
  simp only at hrow
  split at hrow
  · obtain ⟨old, hold, rfl⟩ := List.mem_map.mp hrow
    split
    · next hkey => exact hnew { old with nextChunk := nextChunk } hkey rfl
    · exact hi₁.progress old hold
  · rcases List.mem_append.mp hrow with hrow | hrow
    · exact hi₁.progress row hrow
    · rw [List.mem_singleton.mp hrow]
      exact hnew ⟨key, nextChunk⟩ rfl rfl

/-! ### A run -/

theorem forall₂_snoc {α β : Type} {R : α → β → Prop} {l : List α} {a : α} {l' : List β} (h : List.Forall₂ R (l ++ [a]) l') :
    ∃ l₁ b, l' = l₁ ++ [b] ∧ List.Forall₂ R l l₁ ∧ R a b := by
  induction l generalizing l' with
  | nil =>
    cases h with
    | cons hab hnil =>
      cases hnil
      exact ⟨[], _, rfl, .nil, hab⟩
  | cons x l ih =>
    cases h with
    | cons hx hrest =>
      obtain ⟨l₁, b, rfl, hl, hb⟩ := ih hrest
      exact ⟨_ :: l₁, b, rfl, .cons hx hl, hb⟩

/-- A chunk before the cursor is not counted. -/
theorem CountsFrom.skip {done : List AbiChunkRef} {ref : AbiChunkRef} {nextChunk count : Nat}
    (h : CountsFrom sha256 decode stored done nextChunk count) (hbefore : done.length < nextChunk) :
    CountsFrom sha256 decode stored (done ++ [ref]) nextChunk count := by
  intro chunks hchunks
  obtain ⟨chunks, chunk, rfl, hdone, -⟩ := forall₂_snoc hchunks
  have hlength := hdone.length_eq
  rw [h chunks hdone, List.drop_eq_nil_of_le (by omega), List.drop_eq_nil_of_le (by simp; omega)]

theorem CountsFrom.read (hsha : Collisionless sha256 stored) {done : List AbiChunkRef} {ref : AbiChunkRef} {chunk : AbiChunk}
    {nextChunk count : Nat} (h : CountsFrom sha256 decode stored done nextChunk count)
    (hchunk : ChunkOf sha256 decode stored ref chunk) (hbehind : nextChunk ≤ done.length) :
    CountsFrom sha256 decode stored (done ++ [ref]) nextChunk (count + (relevantRecords chunk).length) := by
  intro chunks hchunks
  obtain ⟨chunks, other, rfl, hdone, hother⟩ := forall₂_snoc hchunks
  obtain rfl := hchunk.unique hsha hother
  have hlength := hdone.length_eq
  rw [h chunks hdone, List.drop_append_of_le_length (by omega)]
  simp

theorem keepRecords_count {retain : Bool} {w w' : Indexing} {relevant : List AbiRecord}
    (h : keepRecords retain w relevant = .ok w') : w'.indexedCount = w.indexedCount + relevant.length := by
  unfold keepRecords at h
  split at h
  · cases h
    rfl
  · obtain ⟨-, h⟩ := Fallible.guard_ok.mp h
    cases h
    rfl

/-- All of these chunks are indexed. -/
def AllPersisted (sha256 : Bytes → Hash.Digest) (decode : Bytes → Option AbiDocument) (stored : Bytes → Prop)
    (key : IndexKey) (refs : List AbiChunkRef) (s : AbiState) : Prop :=
  ∀ ref ∈ refs, Persisted sha256 decode stored key ref s

theorem AllPersisted.grows {key : IndexKey} {refs : List AbiChunkRef} (s s' : AbiState)
    (h : AllPersisted sha256 decode stored key refs s) (hs : Indexes s s') : AllPersisted sha256 decode stored key refs s' :=
  fun ref href => (h ref href).grows hs

theorem AllPersisted.snoc {key : IndexKey} {refs : List AbiChunkRef} {ref : AbiChunkRef} {s : AbiState}
    (h : AllPersisted sha256 decode stored key refs s) (href : Persisted sha256 decode stored key ref s) :
    AllPersisted sha256 decode stored key (refs ++ [ref]) s := by
  intro r hr
  rcases List.mem_append.mp hr with hr | hr
  · exact h r hr
  · rwa [List.mem_singleton.mp hr]

section
variable (hsha : Collisionless sha256 stored) {key : IndexKey} {inventory : AbiInventory}
  (hinventory : Inventory sha256 decode stored key.inventorySha256 inventory)
include hsha hinventory

/-- A chunk that was read is indexed, and counted. -/
theorem indexChunk_keeps (artifactSha256 : String) (retain : Bool) {done refs : List AbiChunkRef} {ref : AbiChunkRef}
    (hchunks : inventory.chunks = done ++ ref :: refs) (w : Indexing) {s : AbiState} (hi : IndexOk sha256 decode stored s)
    (hdone : AllPersisted sha256 decode stored key done s) :
    KeepsIndex sha256 decode stored
      (fun w' s => (∃ chunk, ChunkOf sha256 decode stored ref chunk ∧
        w'.indexedCount = w.indexedCount + (relevantRecords chunk).length) ∧
        AllPersisted sha256 decode stored key (done ++ [ref]) s)
      (indexChunk sha256 decode artifactSha256 (some (key, retain)) ref done.length w) s := by
  have href : ref ∈ inventory.chunks := by simp [hchunks]
  unfold indexChunk
  split
  · trivial
  · refine keeps_bind hi ((readAbiChunk_keeps ref artifactSha256 s).frame AllPersisted.grows AllPersisted.grows hdone) ?_
    rintro chunk s₁ hi₁ ⟨hchunk, hdone₁⟩
    refine keeps_bind hi₁ ((persist_keeps hsha hinventory href hchunk s₁).frame AllPersisted.grows AllPersisted.grows hdone₁) ?_
    rintro - s₂ hi₂ ⟨hpersisted, hdone₂⟩
    have hall := hdone₂.snoc hpersisted
    refine keeps_ofExcept_bind fun w' hw' => ?_
    have hprogress : ∀ other, Inventory sha256 decode stored key.inventorySha256 other →
        ∀ r ∈ other.chunks.take (done.length + 1), Persisted sha256 decode stored key r s₂ := by
      intro other hother r hr
      obtain rfl := hother.unique hsha hinventory
      rw [hchunks, List.append_cons, List.take_left' (by simp)] at hr
      exact hall r hr
    refine keeps_bind hi₂ ((setProgress_keeps hprogress).frame AllPersisted.grows AllPersisted.grows hall) ?_
    rintro - s₃ - ⟨-, hall₃⟩
    have hcounted := keepRecords_count hw'
    exact fun s₄ _ hs => ⟨⟨chunk, hchunk, hcounted⟩, hall₃.grows _ _ hs⟩

/-- The chunks from the cursor on are indexed and counted; those before it were indexed before. -/
theorem indexChunks_keeps (artifactSha256 : String) (retain : Bool) {nextChunk : Nat} {done refs : List AbiChunkRef}
    (hchunks : inventory.chunks = done ++ refs) {w : Indexing} {s : AbiState} (hi : IndexOk sha256 decode stored s)
    (hcursor : AllPersisted sha256 decode stored key (inventory.chunks.take nextChunk) s)
    (hdone : AllPersisted sha256 decode stored key done s)
    (hcount : CountsFrom sha256 decode stored done nextChunk w.indexedCount) :
    KeepsIndex sha256 decode stored
      (fun w' s => CountsFrom sha256 decode stored inventory.chunks nextChunk w'.indexedCount ∧
        AllPersisted sha256 decode stored key inventory.chunks s)
      (indexChunks sha256 decode artifactSha256 (some (key, retain)) nextChunk done.length refs w) s := by
  induction refs generalizing done w s with
  | nil =>
    rw [List.append_nil] at hchunks
    rw [← hchunks] at hdone hcount
    exact fun s' _ hs => ⟨hcount, hdone.grows _ _ hs⟩
  | cons ref refs ih =>
    unfold indexChunks
    have hlength : (done ++ [ref]).length = done.length + 1 := by simp
    have hsplit : inventory.chunks = (done ++ [ref]) ++ refs := by rw [hchunks, List.append_cons]
    split
    · next hbefore =>
      have href : ref ∈ inventory.chunks.take nextChunk := by
        refine List.mem_take_iff_getElem.mpr ⟨done.length, ?_, ?_⟩
        · rw [hchunks, List.length_append, List.length_cons]
          omega
        · simp [hchunks]
      have hnext := ih hsplit hi hcursor (hdone.snoc (hcursor ref href)) (hcount.skip hbefore)
      rwa [hlength] at hnext
    · next hbehind =>
      refine keeps_bind hi ((indexChunk_keeps hsha hinventory artifactSha256 retain hchunks w hi hdone).frame
        AllPersisted.grows AllPersisted.grows hcursor) ?_
      rintro w' s₁ hi₁ ⟨⟨⟨chunk, hchunk, hw'⟩, hdone₁⟩, hcursor₁⟩
      have hcount₁ := hcount.read hsha hchunk (Nat.le_of_not_lt hbehind)
      rw [← hw'] at hcount₁
      have hnext := ih hsplit hi₁ hcursor₁ hdone₁ hcount₁
      rwa [hlength] at hnext

omit hsha in
/-- The row of a finished index. -/
theorem insertIndexState_keeps {row : IndexStateRow} (hrow : row.key = key) {nextChunk : Nat} {s : AbiState}
    (hcount : CountsFrom sha256 decode stored inventory.chunks nextChunk row.recordCount)
    (hall : AllPersisted sha256 decode stored key inventory.chunks s) {α : Type} {next : Unit → Prog AbiState AbiThrow α}
    (hnext : ∀ s, KeepsIndex sha256 decode stored (fun _ _ => True) (next ()) s) :
    KeepsIndex sha256 decode stored (fun _ _ => True) (insertIndexState row nextChunk >>= next) s := by
  refine keeps_transact_bind fun s₁ hi₁ hs _ => ?_
  split
  · exact ⟨hi₁, fun _ h => h, fun _ h => nomatch h⟩
  · next hnone =>
    have hnew : row.key ∉ s₁.indexStates.map (·.key) := by
      intro hmem
      obtain ⟨other, hother, hkey⟩ := List.mem_map.mp hmem
      exact hnone (List.any_eq_true.mpr ⟨other, hother, by simp [hkey]⟩)
    refine ⟨⟨hi₁.retained.same rfl rfl, hi₁.once, hi₁.placed, hi₁.progress, ?_, ?_, ?_⟩, fun _ h => h, fun _ _ => hnext _⟩
    · intro other hother
      rcases List.mem_append.mp hother with hother | hother
      · obtain ⟨inventory', hinventory', hpersisted, n, hn, hcounts⟩ := hi₁.indexed other hother
        exact ⟨inventory', hinventory', hpersisted, n, List.mem_append_left _ hn, hcounts⟩
      · obtain rfl := List.mem_singleton.mp hother
        rw [hrow]
        exact ⟨inventory, hinventory, hall.grows _ _ hs, nextChunk, List.mem_append_right _ List.mem_cons_self, hcount⟩
    · rw [List.map_append, List.map_singleton, List.nodup_append]
      refine ⟨hi₁.keys, List.nodup_singleton _, ?_⟩
      rintro _ hkey _ hsame rfl
      exact hnew (List.mem_singleton.mp hsame ▸ hkey)
    · simp [hi₁.finished]

end

theorem clearProgress_keeps (key : IndexKey) (abi : QualificationAbi) (s : AbiState) :
    KeepsIndex sha256 decode stored (fun _ _ => True)
      (do
        modify fun s => { s with progress := s.progress.filter (·.key ≠ key) }
        pure abi) s := by
  intro s₁ hi₁ _ _
  refine ⟨⟨hi₁.retained.same rfl rfl, hi₁.once, hi₁.placed, ?_, hi₁.indexed, hi₁.keys, hi₁.finished⟩, fun _ h => h,
    fun _ _ _ => trivial⟩
  exact fun row hrow => hi₁.progress row (List.mem_of_mem_filter hrow)

/-- Without an index, chunks are only read. -/
theorem indexChunks_reads (artifactSha256 : String) {nextChunk chunkIndex : Nat} {refs : List AbiChunkRef} {w : Indexing}
    {s : AbiState} (hi : IndexOk sha256 decode stored s) :
    KeepsIndex sha256 decode stored (fun _ _ => True)
      (indexChunks sha256 decode artifactSha256 none nextChunk chunkIndex refs w) s := by
  induction refs generalizing chunkIndex w s with
  | nil => exact fun _ _ _ => trivial
  | cons ref refs ih =>
    unfold indexChunks
    split
    · exact ih hi
    · refine keeps_bind (P := fun _ _ => True) hi ?_ fun w' s₁ hi₁ _ => ih hi₁
      unfold indexChunk
      split
      · trivial
      · refine keeps_bind hi (readAbiChunk_keeps ref artifactSha256 s) fun chunk s₁ hi₁ _ => ?_
        exact keeps_ofExcept_bind fun w' _ => fun _ _ _ => trivial

theorem readAbi_keeps (hsha : Collisionless sha256 stored) (ref : Inputs.InputObject) (artifactSha256 : String)
    (build : Attempt) (indexContext : Option IndexContext) {s : AbiState} (hi : IndexOk sha256 decode stored s) :
    KeepsIndex sha256 decode stored (fun _ _ => True) (readAbi sha256 decode ref artifactSha256 build indexContext) s := by
  refine keeps_ofExcept_bind fun _ _ => keeps_bind hi (retainedAbiInventory_keeps build ref artifactSha256 s) ?_
  intro inventory s₁ hi₁ hinventory
  cases indexContext with
  | none => exact keeps_bind hi₁ (indexChunks_reads artifactSha256 hi₁) fun _ _ _ _ _ _ _ => trivial
  | some context =>
    refine keeps_read_bind fun s₂ hi₂ _ => ?_
    split
    · exact fun _ _ _ => trivial
    · refine keeps_read_bind fun s₃ hi₃ _ => ?_
      have hcursor : AllPersisted sha256 decode stored (context.key artifactSha256 ref.sha256)
          (inventory.chunks.take (((s₃.progress.find? (·.key = context.key artifactSha256 ref.sha256)).map
            (·.nextChunk)).getD 0)) s₃ := by
        cases hfound : s₃.progress.find? (·.key = context.key artifactSha256 ref.sha256) with
        | none => simp [AllPersisted]
        | some row =>
          have hkey : row.key = context.key artifactSha256 ref.sha256 := by simpa using List.find?_some hfound
          have hrow := hi₃.progress row (List.mem_of_find?_eq_some hfound) inventory (by rw [hkey]; exact hinventory)
          rwa [hkey] at hrow
      have hchunks : inventory.chunks = [] ++ inventory.chunks := rfl
      refine keeps_bind hi₃ (indexChunks_keeps hsha hinventory artifactSha256 context.retainRecords hchunks hi₃ hcursor
        (by simp [AllPersisted]) ?_) ?_
      · intro chunks hchunks
        cases hchunks
        simp
      · rintro w s₄ hi₄ ⟨hcount, hall⟩
        exact insertIndexState_keeps hinventory rfl hcount hall fun s₅ => clearProgress_keeps _ _ s₅

end

/-! ## Any order of runs -/

/-- Runs for any artifact, inventory and candidate. -/
inductive AbiRequest (sha256 : Bytes → Hash.Digest) (decode : Bytes → Option AbiDocument) :
    Nat → Prog AbiState AbiThrow QualificationAbi → Prop where
  | run (n : Nat) (ref : Inputs.InputObject) (artifactSha256 : String) (build : Attempt) (context : Option IndexContext) :
      AbiRequest sha256 decode n (readAbi sha256 decode ref artifactSha256 build context)

/-- What changes besides: the evidence and the stored chunks. -/
def EvidenceMoves (sha256 : Bytes → Hash.Digest) (decode : Bytes → Option AbiDocument) (stored : Bytes → Prop)
    (s s' : AbiState) : Prop :=
  EvidenceKept sha256 decode stored s' ∧ s'.records = s.records ∧ s'.indexStates = s.indexStates ∧ s'.progress = s.progress ∧
    s'.finished = s.finished

/-- Nothing was indexed yet. -/
def Unindexed (s : AbiState) : Prop := s.records = [] ∧ s.indexStates = [] ∧ s.progress = [] ∧ s.finished = []

section
variable {sha256 : Bytes → Hash.Digest} {decode : Bytes → Option AbiDocument} {stored : Bytes → Prop}

theorem abi_agree (hsha : Collisionless sha256 stored) :
    Pool.Agree (AbiRequest sha256 decode) (EvidenceMoves sha256 decode stored) (IndexOk sha256 decode stored)
      (fun _ _ => True) (fun _ => Indexes) (fun _ => Indexes) (fun _ _ => True) where
  refl _ := inferInstance
  trans _ := inferInstance
  start := by
    intro n p s hp hi
    cases hp with
    | run ref artifactSha256 build context => exact readAbi_keeps hsha ref artifactSha256 build context hi
  others _ _ _ h := h
  outside := by
    rintro s s' ⟨hretained, hrecords, hstates, hprogress, hfinished⟩ hi
    have hpersisted : ∀ key ref, Persisted sha256 decode stored key ref s → Persisted sha256 decode stored key ref s' :=
      fun key ref h => h.grows fun row hrow => hrecords ▸ hrow
    refine ⟨⟨hretained, hrecords ▸ hi.once, hrecords ▸ hi.placed, ?_, ?_, hstates ▸ hi.keys, ?_⟩, fun _ row hrow => hrecords ▸ hrow⟩
    · rw [hprogress]
      exact fun row hrow inventory hinventory ref href => hpersisted _ _ (hi.progress row hrow inventory hinventory ref href)
    · rw [hstates, hfinished]
      intro row hrow
      obtain ⟨inventory, hinventory, hall, hcounts⟩ := hi.indexed row hrow
      exact ⟨inventory, hinventory, fun ref href => hpersisted _ _ (hall ref href), hcounts⟩
    · rw [hstates, hfinished]
      exact hi.finished

theorem unindexed_ok {s : AbiState} (hretained : EvidenceKept sha256 decode stored s) (h : Unindexed s) :
    IndexOk sha256 decode stored s := by
  obtain ⟨hrecords, hstates, hprogress, hfinished⟩ := h
  exact ⟨hretained, by simp [Once, hrecords], by simp [hrecords], by simp [hprogress], by simp [hstates], by simp [hstates],
    by simp [hstates, hfinished]⟩

theorem exists_of_forall₂ {α β : Type} {R : α → β → Prop} {l : List α} {l' : List β} (h : List.Forall₂ R l l') {b : β}
    (hb : b ∈ l') : ∃ a ∈ l, R a b := by
  induction h with
  | nil => cases hb
  | cons hab _ ih =>
    rcases List.mem_cons.mp hb with rfl | hb
    · exact ⟨_, List.mem_cons_self, hab⟩
    · obtain ⟨a, ha, hr⟩ := ih hb
      exact ⟨a, List.mem_cons_of_mem _ ha, hr⟩

/-- The rows of a finished index are those of its chunks. -/
theorem IndexOk.rows_perm (hsha : Collisionless sha256 stored) {s : AbiState} (hi : IndexOk sha256 decode stored s)
    {key : IndexKey} {inventory : AbiInventory} (hinventory : Inventory sha256 decode stored key.inventorySha256 inventory)
    (hall : AllPersisted sha256 decode stored key inventory.chunks s) {chunks : List AbiChunk}
    (hchunks : List.Forall₂ (ChunkOf sha256 decode stored) inventory.chunks chunks) :
    (s.records.filter (·.key = key)).Perm (allRows key chunks) := by
  have hcontiguous : Contiguous 0 chunks :=
    contiguous_of_follow hinventory.2 (fun _ h => h) hchunks hinventory.follow
  have hnodup : s.records.Nodup := List.Nodup.of_map _ hi.once
  have hrows : (allRows key chunks).Nodup := (allRows_pairwise hcontiguous).imp fun h heq => by
    rw [heq] at h
    exact Nat.lt_irrefl _ h
  refine (List.perm_ext_iff_of_nodup (hnodup.filter _) hrows).mpr fun row => ?_
  rw [List.mem_filter, decide_eq_true_eq, allRows, List.mem_flatMap]
  constructor
  · rintro ⟨hrow, rfl⟩
    obtain ⟨other, hother, ref, href, chunk, hchunk, hmem⟩ := hi.placed row hrow
    obtain rfl := hother.unique hsha hinventory
    obtain ⟨chunk', hchunk', hof⟩ := exists_of_forall₂ hchunks.flip href
    exact ⟨chunk', hchunk', hchunk.unique hsha hof ▸ hmem⟩
  · rintro ⟨chunk, hchunk, hrow⟩
    obtain ⟨ref, href, hof⟩ := exists_of_forall₂ hchunks hchunk
    exact ⟨hall ref href chunk hof row hrow, (chunkRows_bounds hrow).1⟩

theorem indexedRecords_eq {s : AbiState} {key : IndexKey} {chunks : List AbiChunk} (hcontiguous : Contiguous 0 chunks)
    (hperm : (s.records.filter (·.key = key)).Perm (allRows key chunks)) :
    indexedQualificationAbiRecords key s = chunks.flatMap relevantRecords := by
  have htotal : Std.Total fun a b : AbiRecordRow => a.ordinal ≤ b.ordinal := ⟨fun a b => Nat.le_total a.ordinal b.ordinal⟩
  have htrans : IsTrans AbiRecordRow fun a b => a.ordinal ≤ b.ordinal := ⟨fun _ _ _ => Nat.le_trans⟩
  have hsorted : ((s.records.filter (·.key = key)).insertionSort fun a b => a.ordinal ≤ b.ordinal).Pairwise
      fun a b => a.ordinal ≤ b.ordinal := List.pairwise_insertionSort _ _
  have hinsertion := (List.perm_insertionSort (fun a b : AbiRecordRow => a.ordinal ≤ b.ordinal)
    (s.records.filter (·.key = key))).trans hperm
  have hrows : ((s.records.filter (·.key = key)).insertionSort fun a b => a.ordinal ≤ b.ordinal) = allRows key chunks := by
    refine hinsertion.eq_of_pairwise ?_ hsorted ((allRows_pairwise hcontiguous).imp Nat.le_of_lt)
    intro a b ha hb hab hba
    exact allRows_ordinal hcontiguous (hinsertion.mem_iff.mp ha) hb (Nat.le_antisymm hab hba)
  rw [indexedQualificationAbiRecords, hrows, allRows_records]

theorem length_flatMap_relevant (chunks : List AbiChunk) :
    (chunks.flatMap relevantRecords).length = (chunks.map fun chunk => (relevantRecords chunk).length).sum :=
  List.length_flatMap

/-- What is not counted is all there is just if the chunks before the cursor have nothing relevant. -/
theorem drop_counts_iff (chunks : List AbiChunk) (n : Nat) :
    ((chunks.drop n).map fun chunk => (relevantRecords chunk).length).sum = (chunks.flatMap relevantRecords).length ↔
      ∀ chunk ∈ chunks.take n, relevantRecords chunk = [] := by
  have hsplit : (chunks.flatMap relevantRecords).length =
      ((chunks.take n).flatMap relevantRecords).length + ((chunks.drop n).flatMap relevantRecords).length := by
    rw [← List.length_append, ← List.flatMap_append, List.take_append_drop]
  rw [hsplit, ← length_flatMap_relevant, ← List.flatMap_eq_nil_iff, ← List.length_eq_zero_iff]
  omega

/-- Once a row says that an inventory is indexed, the records are those of all
chunks in order, each once, and their number is the recorded one just if the run
that made the row went on from a cursor with nothing relevant before it. -/
theorem abi_index_iff (hsha : Collisionless sha256 stored) (s : AbiState) (hretained : EvidenceKept sha256 decode stored s)
    (hfirst : Unindexed s) (pool : Pool AbiState AbiThrow QualificationAbi)
    (hsteps : Pool.Steps (AbiRequest sha256 decode) (EvidenceMoves sha256 decode stored) ⟨s, []⟩ pool)
    (row : IndexStateRow) (hrow : row ∈ pool.state.indexStates) (inventory : AbiInventory)
    (hinventory : Document sha256 decode stored row.key.inventorySha256 (.inventory inventory)) (chunks : List AbiChunk)
    (hchunks : List.Forall₂ (ChunkOf sha256 decode stored) inventory.chunks chunks) :
    (indexedQualificationAbiRecords row.key pool.state = chunks.flatMap relevantRecords ∧
        row.recordCount = (chunks.flatMap relevantRecords).length) ↔
      ∃ n, (row.key, n) ∈ pool.state.finished ∧ ∀ chunk ∈ chunks.take n, relevantRecords chunk = [] := by
  have hi := ((Pool.good_start (unindexed_ok hretained hfirst)).steps (abi_agree hsha) hsteps).1
  obtain ⟨known, hknown, hall, n, hn, hcount⟩ := hi.indexed row hrow
  obtain rfl : known = inventory := AbiDocument.inventory.inj (hknown.1.unique hsha hinventory)
  have hcontiguous : Contiguous 0 chunks := contiguous_of_follow hknown.2 (fun _ h => h) hchunks hknown.follow
  have hrecords := indexedRecords_eq hcontiguous (hi.rows_perm hsha hknown hall hchunks)
  have honce : (pool.state.finished.map (·.1)).Nodup := hi.finished ▸ hi.keys
  rw [hcount chunks hchunks, drop_counts_iff]
  constructor
  · exact fun h => ⟨n, hn, h.2⟩
  · rintro ⟨m, hm, hnothing⟩
    have hsame : m = n := congrArg Prod.snd (List.inj_on_of_nodup_map honce hm hn rfl)
    exact ⟨hrecords, hsame ▸ hnothing⟩

end

/-! ## A run that goes on -/

theorem length_byteHash (bytes : Bytes) : (bytes.headD 0 :: List.replicate 31 0).length = 32 := rfl

/-- The first byte, as a digest of one byte. -/
def byteHash (bytes : Bytes) : Hash.Digest := ⟨bytes.headD 0 :: List.replicate 31 0, length_byteHash bytes⟩

def sampleFile : AbiRecord := .file ⟨"usr/lib/a.so", some (byteHash []).hex, some .elf, none⟩

def sampleSymbol : AbiRecord :=
  .symbol ⟨"usr/lib/a.so", "dynsym", true, "f", true, "STB_GLOBAL", "STT_FUNC", "STV_DEFAULT", 1, none, none, false⟩

def sampleChunks : List AbiChunk := [⟨(byteHash []).hex, 0, [sampleFile]⟩, ⟨(byteHash []).hex, 1, [sampleSymbol]⟩]

/-- Two chunks, of a file and of a symbol. -/
def sampleInventory : AbiInventory :=
  ⟨(byteHash []).hex, 1, 1, [⟨⟨(byteHash [2]).hex, 1⟩, 0, 1, 1, 0⟩, ⟨⟨(byteHash [3]).hex, 1⟩, 1, 1, 0, 1⟩], .notChecked⟩

def sampleDecode : Bytes → Option AbiDocument
  | [1] => some (.inventory sampleInventory)
  | [2] => (sampleChunks[0]?).map .chunk
  | [3] => (sampleChunks[1]?).map .chunk
  | _ => none

def sampleStored (bytes : Bytes) : Prop := bytes ∈ [[1], [2], [3]]

def sampleAbiState : AbiState where
  evidence := [⟨"b", 1, (byteHash [1]).hex, 1, (byteHash []).hex, .abiInventory, 0, 1, 1, some [1]⟩,
    ⟨"b", 1, (byteHash [2]).hex, 1, (byteHash []).hex, .abiRecords, 0, 1, 0, none⟩,
    ⟨"b", 1, (byteHash [3]).hex, 1, (byteHash []).hex, .abiRecords, 1, 0, 1, none⟩]
  objects digest := [[2], [3]].find? fun bytes => (byteHash bytes).hex = digest
  records := []
  indexStates := []
  progress := []
  finished := []

def sampleRun (budget : Option Nat) : Prog AbiState AbiThrow QualificationAbi :=
  readAbi byteHash sampleDecode ⟨(byteHash [1]).hex, 1⟩ (byteHash []).hex ⟨"b", 1⟩ (some ⟨"c", 1, .x86_64, false, budget⟩)

def sampleKey : IndexKey := ⟨"c", 1, .x86_64, (byteHash []).hex, (byteHash [1]).hex⟩

/-- A run with a budget of one chunk, and one that goes on. -/
def resumedRun : Pool AbiState AbiThrow QualificationAbi :=
  (((⟨sampleAbiState, []⟩ : Pool AbiState AbiThrow QualificationAbi).starting (sampleRun (some 1))).starting
    (sampleRun none)).turns (List.replicate 7 0 ++ List.replicate 9 1)

def wholeRun : Pool AbiState AbiThrow QualificationAbi :=
  ((⟨sampleAbiState, []⟩ : Pool AbiState AbiThrow QualificationAbi).starting (sampleRun none)).turns (List.replicate 12 0)

theorem byteHash_collisionless : Collisionless byteHash sampleStored := by
  intro a b ha hb
  simp only [sampleStored, List.mem_cons, List.not_mem_nil, or_false] at ha hb
  rcases ha with rfl | rfl | rfl <;> rcases hb with rfl | rfl | rfl <;> decide +kernel

theorem sampleAbiState_retained : EvidenceKept byteHash sampleDecode sampleStored sampleAbiState where
  manifests := by
    intro row hrow json hjson
    simp only [sampleAbiState, List.mem_cons, List.not_mem_nil, or_false] at hrow
    rcases hrow with rfl | rfl | rfl <;> cases hjson
    exact List.mem_cons_self
  objects := by
    intro digest bytes hbytes
    simp only [sampleAbiState] at hbytes
    exact List.mem_cons_of_mem _ (List.mem_of_find?_eq_some hbytes)
  unique := by decide +kernel
  described := by
    have hchunk : ∀ bytes, sampleStored bytes → ∀ row ∈ sampleAbiState.evidence, row.kind = .abiRecords →
        (byteHash bytes).hex = row.sha256 → ∀ chunk ∈ sampleChunks, sampleDecode bytes = some (.chunk chunk) →
          chunk.start = row.start ∧ chunk.records.length = row.files + row.symbols := by
      intro bytes hbytes
      simp only [sampleStored, List.mem_cons, List.not_mem_nil, or_false] at hbytes
      rcases hbytes with rfl | rfl | rfl <;> decide +kernel
    rintro row hrow hkind chunk ⟨bytes, hbytes, hsha, hdecode⟩
    have hdocument := (Option.filter_eq_some_iff.mp hdecode).1
    refine hchunk bytes hbytes row hrow hkind hsha chunk ?_ hdocument
    simp only [sampleStored, List.mem_cons, List.not_mem_nil, or_false] at hbytes
    rcases hbytes with rfl | rfl | rfl <;> cases hdocument <;> decide +kernel

theorem resumedRun_steps : Pool.Steps (AbiRequest byteHash sampleDecode) (EvidenceMoves byteHash sampleDecode sampleStored)
    ⟨sampleAbiState, []⟩ resumedRun :=
  ((Pool.Steps.starting .refl (.run _ _ _ _ _)).starting (.run _ _ _ _ _)).turns _

theorem wholeRun_steps : Pool.Steps (AbiRequest byteHash sampleDecode) (EvidenceMoves byteHash sampleDecode sampleStored)
    ⟨sampleAbiState, []⟩ wholeRun :=
  (Pool.Steps.starting .refl (.run _ _ _ _ _)).turns _

theorem sampleDecode_documents : (sampleDecode [1]).filter isAbiDocument = some (.inventory sampleInventory) ∧
    (sampleDecode [2]).filter isAbiDocument = some (.chunk ⟨(byteHash []).hex, 0, [sampleFile]⟩) ∧
    (sampleDecode [3]).filter isAbiDocument = some (.chunk ⟨(byteHash []).hex, 1, [sampleSymbol]⟩) := by
  decide +kernel

theorem sampleInventory_document :
    Document byteHash sampleDecode sampleStored sampleKey.inventorySha256 (.inventory sampleInventory) :=
  ⟨[1], List.mem_cons_self, rfl, sampleDecode_documents.1⟩

theorem sampleChunks_of : List.Forall₂ (ChunkOf byteHash sampleDecode sampleStored) sampleInventory.chunks sampleChunks :=
  .cons ⟨[2], by simp [sampleStored], rfl, sampleDecode_documents.2.1⟩
    (.cons ⟨[3], by simp [sampleStored], rfl, sampleDecode_documents.2.2⟩ .nil)

/-- What the two runs leave. -/
theorem runs_view :
    (wholeRun.state.indexStates = [⟨sampleKey, .notChecked, 2⟩] ∧ wholeRun.state.finished = [(sampleKey, 0)]) ∧
      resumedRun.state.indexStates = [⟨sampleKey, .notChecked, 1⟩] ∧
        indexedQualificationAbiRecords sampleKey resumedRun.state = [sampleFile, sampleSymbol] := by
  decide +kernel

theorem wholeRun_indexed : indexedQualificationAbiRecords sampleKey wholeRun.state = [sampleFile, sampleSymbol] := by
  obtain ⟨hstates, hfinished⟩ := runs_view.1
  exact ((abi_index_iff byteHash_collisionless sampleAbiState sampleAbiState_retained ⟨rfl, rfl, rfl, rfl⟩ wholeRun
    wholeRun_steps ⟨sampleKey, .notChecked, 2⟩ (hstates ▸ List.mem_cons_self) sampleInventory sampleInventory_document
    sampleChunks sampleChunks_of).mpr ⟨0, hfinished ▸ List.mem_cons_self, by simp⟩).1

/-- The run that goes on counts what it has read itself. -/
theorem resumed_count :
    ¬∀ pool, Pool.Steps (AbiRequest byteHash sampleDecode) (EvidenceMoves byteHash sampleDecode sampleStored)
        ⟨sampleAbiState, []⟩ pool → ∀ row ∈ pool.state.indexStates,
      row.recordCount = (indexedQualificationAbiRecords row.key pool.state).length := by
  intro h
  obtain ⟨hstates, hrecords⟩ := runs_view.2
  have hcount := h resumedRun resumedRun_steps ⟨sampleKey, .notChecked, 1⟩ (hstates ▸ List.mem_cons_self)
  rw [hrecords] at hcount
  exact absurd hcount (by decide)

end Omapkg.Server.Qualification
