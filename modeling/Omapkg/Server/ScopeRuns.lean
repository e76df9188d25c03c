import Omapkg.Server.RebuildDraft
import Omapkg.Server.ScopeParts
/-!
# Sealed scopes

However the uploads of cohorts are begun, filled and sealed among each other, a
sealed upload has the members that were appended, and so has the revision that it
was sealed as.
-/

namespace Omapkg.Server.Scope

open Utf Json Prog Fallible Arch
open Cohort (isIdentifier)
open Dependency (Actor humanMaintainer)
open Rebuild (UnitsLE)

/-! ## What holds among the programs -/

/-- An upload that was read as `row` and is `now`. -/
structure Later (row now : ScopeRow) : Prop where
  cohort : now.cohortId = row.cohortId
  expected : now.upload.expectedCount = row.upload.expectedCount
  chunks : row.upload.chunks <+: now.upload.chunks
  entries : row.upload.entries <+: now.upload.entries

theorem Later.refl (row : ScopeRow) : Later row row := ⟨rfl, rfl, List.prefix_rfl, List.prefix_rfl⟩

theorem Later.trans {a b c : ScopeRow} (hab : Later a b) (hbc : Later b c) : Later a c :=
  ⟨hbc.cohort.trans hab.cohort, hbc.expected.trans hab.expected, hab.chunks.trans hbc.chunks, hab.entries.trans hbc.entries⟩

def Seen (id : String) (row : ScopeRow) (s : ScopeState) : Prop := ∃ now, s.uploads id = some now ∧ Later row now

structure ScopeGrows (s s' : ScopeState) : Prop where
  uploads : ∀ id row, s.uploads id = some row → Seen id row s'
  tables : ∀ id, TablesGrow (s.tables id) (s'.tables id)

theorem Seen.grows {id : String} {row : ScopeRow} {s s' : ScopeState} (h : Seen id row s) (hs : ScopeGrows s s') : Seen id row s' := by
  obtain ⟨now, hnow, hlater⟩ := h
  obtain ⟨next, hnext, hlater'⟩ := hs.uploads id now hnow
  exact ⟨next, hnext, hlater.trans hlater'⟩

theorem TablesGrow.refl (t : CohortTables) : TablesGrow t t := fun _ hr => ⟨hr, rfl, rfl⟩

theorem TablesGrow.trans {a b c : CohortTables} (hab : TablesGrow a b) (hbc : TablesGrow b c) : TablesGrow a c := by
  intro r hr
  obtain ⟨hb, hchunks, hmembers⟩ := hab r hr
  obtain ⟨hc, hchunks', hmembers'⟩ := hbc r hb
  exact ⟨hc, hchunks'.trans hchunks, hmembers'.trans hmembers⟩

instance : Std.Refl ScopeGrows := ⟨fun _ => ⟨fun _ row h => ⟨row, h, .refl row⟩, fun _ => .refl _⟩⟩

instance : IsTrans ScopeState ScopeGrows :=
  ⟨fun _ _ _ hab hbc => ⟨fun id row h => (hab.uploads id row h).grows hbc, fun id => (hab.tables id).trans (hbc.tables id)⟩⟩

/-- A revision has what the chunks of a full upload have. -/
def SealedFor (env : ScopeEnv) (s : ScopeState) (row : ScopeRow) (revision : Nat) : Prop :=
  row.upload.memberCount = row.upload.expectedCount ∧ ∃ r ∈ (s.tables row.cohortId).revisions, r.revision = revision ∧
    ∃ parts, SealedAs env (s.tables row.cohortId) r parts ∧ parts.map membersJson = row.upload.chunks.map (·.membersJson)

structure ScopeOk (env : ScopeEnv) (s : ScopeState) : Prop where
  uploads : ∀ id row, s.uploads id = some row → ∃ parts, Uploaded env row.upload parts
  kept : ∀ id, Kept env (s.tables id)
  seals : ∀ id row revision, s.uploads id = some row → row.upload.sealedRevision = some revision → SealedFor env s row revision

/-- What an answer says of the state. -/
def Answered : ScopeAnswer → ScopeState → Prop
  | .appended id index members, s => ∃ row, s.uploads id = some row ∧
    ∃ chunk ∈ row.upload.chunks, chunk.index = index ∧ chunk.membersJson = membersJson members
  | _, _ => True

section
variable {env : ScopeEnv} {s s' : ScopeState} {id : String} {row : ScopeRow}

theorem SealedFor.grows {revision : Nat} (h : SealedFor env s row revision) (hs : ∀ id, TablesGrow (s.tables id) (s'.tables id)) :
    SealedFor env s' row revision := by
  obtain ⟨hfull, r, hr, hrevision, parts, hparts, htexts⟩ := h
  exact ⟨hfull, r, (hs _ r hr).1, hrevision, parts, hparts.grows hr (hs _), htexts⟩

theorem Answered.grows {answer : ScopeAnswer} (h : Answered answer s) (hs : ScopeGrows s s') : Answered answer s' := by
  cases answer with
  | appended id index members =>
    obtain ⟨row, hrow, chunk, hchunk, hindex, hjson⟩ := h
    obtain ⟨now, hnow, hlater⟩ := hs.uploads id row hrow
    exact ⟨now, hnow, chunk, hlater.chunks.subset hchunk, hindex, hjson⟩
  | begun => trivial
  | sealed => trivial

theorem ScopeOk.setUpload (hi : ScopeOk env s) (hup : ∃ parts, Uploaded env row.upload parts)
    (hseal : ∀ revision, row.upload.sealedRevision = some revision → SealedFor env s row revision) :
    ScopeOk env (s.setUpload id row) := by
  refine ⟨fun other found hfound => ?_, hi.kept, fun other found revision hfound hsealed => ?_⟩
  · by_cases hid : other = id
    · obtain rfl : row = found := by simpa [ScopeState.setUpload, hid] using hfound
      exact hup
    · exact hi.uploads other found (by simpa [ScopeState.setUpload, hid] using hfound)
  · by_cases hid : other = id
    · obtain rfl : row = found := by simpa [ScopeState.setUpload, hid] using hfound
      exact hseal revision hsealed
    · exact hi.seals other found revision (by simpa [ScopeState.setUpload, hid] using hfound) hsealed

theorem grows_setUpload (hlater : ∀ old, s.uploads id = some old → Later old row) : ScopeGrows s (s.setUpload id row) := by
  refine ⟨fun other found hfound => ?_, fun _ => .refl _⟩
  by_cases hid : other = id
  · subst hid
    exact ⟨row, by simp [ScopeState.setUpload], hlater found hfound⟩
  · exact ⟨found, by simpa [ScopeState.setUpload, hid] using hfound, .refl found⟩

theorem setUpload_self : (s.setUpload id row).uploads id = some row := if_pos rfl

/-! ## Batches -/

theorem insertUpload_ok (hi : ScopeOk env s) (hup : ∃ parts, Uploaded env row.upload parts)
    (hopen : row.upload.sealedRevision = none) (id : String) :
    ScopeOk env (insertUpload id row s) ∧ ScopeGrows s (insertUpload id row s) := by
  unfold insertUpload
  split
  · exact ⟨hi, refl_of ScopeGrows s⟩
  · next hnone =>
    refine ⟨hi.setUpload hup fun revision h => ?_, grows_setUpload fun old hold => ?_⟩
    · rw [hopen] at h
      cases h
    · simp [hold] at hnone

/-- An upload that has as many entries as it had has the same. -/
theorem Later.last_eq {now : ScopeRow} {parts parts' : List (List CohortMember)} (h : Later row now)
    (hrow : Uploaded env row.upload parts) (hnow : Uploaded env now.upload parts')
    (hcount : now.upload.memberCount = row.upload.memberCount) : now.upload.lastPkgbase = row.upload.lastPkgbase := by
  have hlength : row.upload.entries.length = now.upload.entries.length := by
    have hrowLength := congrArg List.length hrow.members
    have hnowLength := congrArg List.length hnow.members
    rw [List.length_map] at hrowLength hnowLength
    rw [hrowLength, hnowLength, ← hrow.count, ← hnow.count, hcount]
  have hentries := h.entries.eq_of_length hlength
  rw [hnow.last, hrow.last, ← hnow.members, ← hrow.members, hentries]

theorem appendStep_ok (hi : ScopeOk env s) (hseen : Seen id row s) {parts : List (List CohortMember)}
    (hrow : Uploaded env row.upload parts) {members : List CohortMember} (hm : SoundMembers env.jsNumber members)
    (habove : ¬UnitsLE (firstName members) row.upload.lastPkgbase)
    (hroom : row.upload.memberCount + members.length ≤ row.upload.expectedCount) (index : Nat) :
    ScopeOk env (appendStep env id row.upload index members s).2 ∧
      ScopeGrows s (appendStep env id row.upload index members s).2 ∧
      ∀ done, (appendStep env id row.upload index members s).1 = .ok done →
        Answered (.appended id index members) (appendStep env id row.upload index members s).2 := by
  obtain ⟨now, hnow, hlater⟩ := hseen
  obtain ⟨parts', hparts'⟩ := hi.uploads id now hnow
  unfold appendStep
  rw [hnow]
  dsimp only
  split
  · exact ⟨hi, refl_of ScopeGrows s, fun _ h => nomatch h⟩
  · next hchecks =>
    simp only [not_or, not_not] at hchecks
    obtain ⟨hnext, hcount, hopen, -, -⟩ := hchecks
    -- the last name was read before the batch, and is still the last
    have hlast := hlater.last_eq hrow hparts' hcount
    have hindex : index = parts'.length := hnext.symm.trans hparts'.next
    subst hindex
    have hup := hparts'.concat hm (hlast ▸ habove) (by rw [hcount, hlater.expected]; exact hroom)
    refine ⟨hi.setUpload ⟨_, hup⟩ fun revision h => ?_, grows_setUpload fun old hold => ?_, fun _ _ => ?_⟩
    · exact nomatch hopen.symm.trans h
    · obtain rfl : now = old := Option.some.inj (hnow.symm.trans hold)
      exact ⟨rfl, rfl, List.prefix_append _ _, List.prefix_append _ _⟩
    · exact ⟨_, setUpload_self, _, List.mem_append_right _ List.mem_cons_self, rfl, rfl⟩

/-- Chunks that were read are those of the upload, when there are no more of them. -/
theorem Later.chunks_eq {now : ScopeRow} {parts : List (List CohortMember)} (h : Later row now)
    (hnow : Uploaded env now.upload parts) (hcount : now.upload.nextChunk = row.upload.chunks.length) :
    row.upload.chunks = now.upload.chunks := by
  refine h.chunks.eq_of_length ?_
  rw [← hcount, hnow.next, hnow.chunks, partRows_length]

theorem canSeal_eq {u : ScopeUpload} {chunks : Nat} (h : canSeal u chunks = true) :
    u.sealedRevision = none ∧ u.memberCount = u.expectedCount ∧ u.nextChunk = chunks := by
  simpa [canSeal, and_assoc] using h

theorem Uploaded.setSealed {parts : List (List CohortMember)} (h : Uploaded env row.upload parts) (revision : Nat) :
    Uploaded env (setSealed row revision).upload parts :=
  ⟨h.chunks, h.members, h.ordinals, h.next, h.count, h.last, h.sound, h.fits, h.few⟩

theorem partRows_digest {sha256 : List Char → String} {chunk : ChunkRow} {index start : Nat} {parts : List (List CohortMember)}
    (h : chunk ∈ partRows sha256 index start parts) : chunk.sha256 = sha256 chunk.membersJson := by
  induction parts generalizing index start with
  | nil => cases h
  | cons p parts ih =>
    rcases List.mem_cons.mp h with rfl | h
    · rfl
    · exact ih h

/-- A revision whose manifest an upload makes again has what the upload has. -/
theorem same_parts (hsha : Function.Injective env.sha256) (hnumber : WritesSafe env.jsNumber) {t : CohortTables} (ht : Kept env t)
    {r : ScopeRecord} (hr : r ∈ t.revisions) {u : ScopeUpload} {parts : List (List CohortMember)} (hu : Uploaded env u parts)
    (hfull : u.memberCount = u.expectedCount) {metadata : CohortMetadata}
    {areas : List String} {targets : List Architecture} (hhash : r.manifestSha256 =
      env.sha256 (manifestText metadata u.expectedCount (u.chunks.map ChunkRow.memberChunk) areas targets)) :
    ∃ parts', SealedAs env t r parts' ∧ parts'.map membersJson = u.chunks.map (·.membersJson) := by
  obtain ⟨hdigest, hform⟩ := ht.revisions r hr
  have hcount : parts.flatten.length = u.expectedCount := hu.count.symm.trans hfull
  have hmanifest : r.manifestJson = manifestText metadata u.expectedCount (u.chunks.map ChunkRow.memberChunk) areas targets :=
    hsha (hdigest.trans hhash)
  have hread : env.readers.manifest r.manifestJson = .chunked u.expectedCount (u.chunks.map ChunkRow.memberChunk) := by
    have hlength := length_le_flatten fun p hp => (hu.sound.short p hp).1
    have hfew := hu.few
    have hbound : 100000 < maxSafeInteger := by decide
    rw [hmanifest]
    refine manifestText_read metadata areas targets hnumber (by omega) fun chunk hchunk => ?_
    obtain ⟨row, hrow, rfl⟩ := List.mem_map.mp hchunk
    obtain ⟨hindex, hstart, hmembers⟩ := partRows_bounds (hu.chunks ▸ hrow)
    simp only [ChunkRow.memberChunk]
    omega
  rcases hform with ⟨values, hinline⟩ | ⟨parts', hparts'⟩
  -- a manifest with members inline is none of chunks
  · rw [hinline] at hread
    cases hread
  · refine ⟨parts', hparts', ?_⟩
    rw [hparts'.manifest_read hnumber, CohortManifest.chunked.injEq] at hread
    have hdigests := congrArg (List.map (·.sha256)) hread.2
    rw [List.map_map, List.map_map] at hdigests
    have hof {rows : List ChunkRow} (h : ∀ chunk ∈ rows, chunk.sha256 = env.sha256 chunk.membersJson) :
        rows.map ((·.sha256) ∘ ChunkRow.memberChunk) = (rows.map (·.membersJson)).map env.sha256 := by
      rw [List.map_map]
      exact List.map_congr_left h
    rw [hof fun chunk h => partRows_digest h, hof fun chunk h => partRows_digest (hu.chunks ▸ h)] at hdigests
    rw [← partRows_json 0 0 parts', hsha.list_map hdigests]

theorem keepStep_ok (hsha : Function.Injective env.sha256) (hnumber : WritesSafe env.jsNumber) (hi : ScopeOk env s)
    (hseen : Seen id row s) {current : CurrentCohort} (hrecord : current.record ∈ (s.tables row.cohortId).revisions)
    (hrevision : current.record.revision = current.head.currentRevision) {metadata : CohortMetadata}
    {areas : List String} {targets : List Architecture} (hhash : current.record.manifestSha256 = env.sha256 (manifestText metadata row.upload.expectedCount
      (row.upload.chunks.map ChunkRow.memberChunk) areas targets)) (fence : List String) (view : SealView) :
    ScopeOk env (keepStep id row.cohortId current.head row.upload.chunks.length fence view s).2 ∧
      ScopeGrows s (keepStep id row.cohortId current.head row.upload.chunks.length fence view s).2 := by
  obtain ⟨now, hnow, hlater⟩ := hseen
  obtain ⟨parts, hparts⟩ := hi.uploads id now hnow
  unfold keepStep
  rw [hnow]
  split
  · next found head hfound hhead =>
    obtain rfl : now = found := Option.some.inj hfound
    split
    · exact ⟨hi, refl_of ScopeGrows s⟩
    · next hchecks =>
      simp only [not_or, Bool.not_eq_false] at hchecks
      obtain ⟨-, -, -, hseal⟩ := hchecks
      obtain ⟨-, hfull, hcount⟩ := canSeal_eq hseal
      -- no chunk came after those that the manifest names
      rw [hlater.chunks_eq hparts hcount, ← hlater.expected] at hhash
      obtain ⟨parts', hsealed, htexts⟩ := same_parts hsha hnumber (hi.kept row.cohortId) hrecord hparts hfull hhash
      refine ⟨hi.setUpload ⟨parts, hparts.setSealed _⟩ fun revision h => ?_, grows_setUpload fun old hold => ?_⟩
      · obtain rfl : current.head.currentRevision = revision := Option.some.inj h
        have hcohort : (setSealed now current.head.currentRevision).cohortId = row.cohortId := hlater.cohort
        refine ⟨hfull, current.record, hcohort ▸ hrecord, hrevision, parts', hcohort ▸ hsealed, htexts⟩
      · obtain rfl : now = old := Option.some.inj (hnow.symm.trans hold)
        exact ⟨rfl, rfl, List.prefix_rfl, List.prefix_rfl⟩
  · exact ⟨hi, refl_of ScopeGrows s⟩

theorem ScopeOk.setTables (hi : ScopeOk env s) {cohortId : String} {t : CohortTables} (ht : Kept env t)
    (hgrow : TablesGrow (s.tables cohortId) t) (cohorts : String → Option CohortHead) :
    ScopeOk env { s with cohorts, tables := fun other => if other = cohortId then t else s.tables other } ∧
      ScopeGrows s { s with cohorts, tables := fun other => if other = cohortId then t else s.tables other } := by
  have hall : ∀ other, TablesGrow (s.tables other) (if other = cohortId then t else s.tables other) := by
    intro other
    split
    · next h => exact h ▸ hgrow
    · exact .refl _
  refine ⟨⟨hi.uploads, fun other => ?_, fun other found revision hfound h => ?_⟩,
    fun other found h => ⟨found, h, .refl found⟩, hall⟩
  · dsimp only
    split
    · exact ht
    · exact hi.kept other
  · exact (hi.seals other found revision hfound h).grows hall

theorem sealStep_ok (hi : ScopeOk env s) (hseen : Seen id row s) (current : Option CohortHead)
    {metadata : CohortMetadata} {areas : List String} {targets : List Architecture} (count revision : Nat) {manifest : List Char}
    (hmanifest : manifest =
      manifestText metadata row.upload.expectedCount (row.upload.chunks.map ChunkRow.memberChunk) areas targets)
    (fence : List String) (view : SealView) :
    ScopeOk env (sealStep env id row.cohortId current row.upload.chunks.length count revision manifest fence view s).2 ∧
      ScopeGrows s (sealStep env id row.cohortId current row.upload.chunks.length count revision manifest fence view s).2 := by
  obtain ⟨now, hnow, hlater⟩ := hseen
  obtain ⟨parts, hparts⟩ := hi.uploads id now hnow
  unfold sealStep
  rw [hnow]
  dsimp only
  split
  · exact ⟨hi, refl_of ScopeGrows s⟩
  · next hchecks =>
    simp only [not_or, Bool.not_eq_false, not_not] at hchecks
    obtain ⟨-, hseal, -, -, -, -, hunique⟩ := hchecks
    obtain ⟨-, hfull, hcount⟩ := canSeal_eq hseal
    rw [hlater.chunks_eq hparts hcount, ← hlater.expected] at hmanifest
    obtain ⟨hkept, hgrow, hsealed⟩ := (hi.kept row.cohortId).sealed hparts hfull hmanifest hunique
    obtain ⟨hi', hgrows⟩ := hi.setTables hkept hgrow fun other =>
      if other = row.cohortId then some ⟨revision, (current.map (·.eventSequence)).getD 0 + 1, some view.eventSha256, .plan⟩
      else s.cohorts other
    refine ⟨hi'.setUpload ⟨parts, hparts.setSealed _⟩ fun number h => ?_,
      trans_of ScopeGrows hgrows (grows_setUpload fun old hold => ?_)⟩
    · obtain rfl : revision = number := Option.some.inj h
      have hcohort : (setSealed now revision).cohortId = row.cohortId := hlater.cohort
      refine ⟨hfull, ⟨revision, manifest, env.sha256 manifest⟩, ?_, rfl, parts, ?_, ?_⟩
      · rw [hcohort]
        dsimp only
        rw [if_pos rfl]
        exact List.mem_append_right _ List.mem_cons_self
      · rw [hcohort]
        dsimp only
        rw [if_pos rfl]
        exact hsealed
      · rw [← partRows_json 0 0 parts, ← hparts.chunks]
        rfl
    · obtain rfl : now = old := Option.some.inj (hnow.symm.trans hold)
      exact ⟨rfl, rfl, List.prefix_rfl, List.prefix_rfl⟩

theorem Uploaded.chunksOf {parts : List (List CohortMember)} (h : Uploaded env row.upload parts) :
    chunksOf (some row) = row.upload.chunks := by
  have hindex : (row.upload.chunks.map (·.index)).Pairwise (· < ·) := by
    rw [h.chunks, partRows_index]
    exact List.pairwise_lt_range'
  exact List.Pairwise.insertionSort_eq ((List.pairwise_map.mp hindex).imp Nat.le_of_lt)

theorem sealWalk_ok {chunks : List ChunkRow} {areas : List String} {targets : List Architecture} {count : Nat}
    (h : sealWalk row chunks areas targets = .ok count) : count = row.upload.expectedCount := by
  obtain ⟨walk, -, h⟩ := bind_ok.mp h
  obtain ⟨hchecks, h⟩ := guard_ok.mp h
  cases h
  exact not_not.mp (not_or.mp hchecks).1

theorem memberRows_stored (revision : Nat) (members : List CohortMember) :
    memberRows env.readers revision (members.map storedValue) true =
      members.mapIdx fun ordinal m => ⟨revision, m.pkgbase, some ordinal⟩ := by
  have hname : ∀ m : CohortMember, env.readers.pkgbase (storedValue m) = m.pkgbase := fun m => storedValue_pkgbase m
  exact List.ext_getElem (by simp [memberRows]) (by simp [memberRows, hname])

/-- Texts that are the same are of the same values. -/
theorem stored_of_texts (hnumber : WritesSafe env.jsNumber) {parts parts' : List (List CohortMember)}
    (hparts : ∀ m ∈ parts.flatten, SoundMember env.jsNumber m) (hparts' : ∀ m ∈ parts'.flatten, SoundMember env.jsNumber m)
    (h : parts.map membersJson = parts'.map membersJson) :
    parts.map (List.map storedValue) = parts'.map (List.map storedValue) := by
  have hread {parts : List (List CohortMember)} (hsound : ∀ m ∈ parts.flatten, SoundMember env.jsNumber m) :
      parts.map (List.map storedValue) = (parts.map membersJson).map env.readers.members := by
    rw [List.map_map]
    exact List.map_congr_left fun p hp => (membersJson_read hnumber fun m hm => hsound m (List.mem_flatten_of_mem hp hm)).symm
  rw [hread hparts, hread hparts', h]

/-! ## Programs -/

/-- A program keeps what holds among others that do, and answers what is so. -/
abbrev KeepsScope (env : ScopeEnv) {α : Type} (Q : α → ScopeState → Prop) (p : ScopeProg α) (s : ScopeState) : Prop :=
  Keeps (ScopeOk env) (fun _ _ => True) ScopeGrows ScopeGrows Q p s

theorem scopeUpload_keeps (actor : Option Actor) (id : String) (s : ScopeState) :
    KeepsScope env (fun row s => (∃ parts, Uploaded env row.upload parts) ∧ Seen id row s) (scopeUpload actor id) s := by
  refine keeps_ofExcept_bind fun reviewer _ => keeps_read_bind fun s₁ hi _ => keeps_ofExcept fun row hrow s₂ _ hs => ?_
  have hfound : s₁.uploads id = some row := by
    unfold ownUpload at hrow
    split at hrow
    · cases hrow
    · next found heq =>
      obtain ⟨-, h⟩ := guard_ok.mp hrow
      rw [heq, Except.ok.inj h]
  exact ⟨hi.uploads id row hfound, hs.uploads id row hfound⟩

theorem currentCohort_keeps (id : String) (s : ScopeState) :
    KeepsScope env (fun current s => ∀ c, current = some c → c.record ∈ (s.tables id).revisions ∧
      c.record.revision = c.head.currentRevision) (currentCohort env id) s := by
  refine keeps_read_bind fun s₁ hi _ => ?_
  split
  · refine keeps_bind (P := fun c s => c.record ∈ (s.tables id).revisions ∧ c.record.revision = c.head.currentRevision) hi ?_ ?_
    · refine keeps_read_bind fun s₂ _ _ => keeps_ofExcept fun c hc s₃ _ hs => ?_
      have hfound : currentRecord id s₂ = some c := by
        unfold foundCohort at hc
        split at hc
        · cases hc
        · next found heq =>
          obtain ⟨-, h⟩ := guard_ok.mp hc
          rw [heq, Except.ok.inj h]
      simp only [currentRecord, Option.bind_eq_bind, Option.bind_eq_some_iff, Option.pure_def, Option.some.injEq] at hfound
      obtain ⟨head, -, record, hrecord, rfl⟩ := hfound
      exact ⟨(hs.tables id _ (List.mem_of_find?_eq_some hrecord)).1, by simpa using List.find?_some hrecord⟩
    · intro c s₂ _ hc s₃ _ hs found hfound
      obtain rfl : c = found := Option.some.inj hfound
      exact ⟨(hs.tables id _ hc.1).1, hc.2⟩
  · exact fun s₂ _ _ c hc => nomatch hc

/-- A read of the row before the answer. -/
theorem answered_keeps (actor : Option Actor) (id : String) {answer : ScopeAnswer} {s : ScopeState} (hi : ScopeOk env s)
    (h : Answered answer s) : KeepsScope env Answered (scopeUpload actor id >>= fun _ => pure answer) s := by
  have hread : KeepsScope env _ (scopeUpload actor id) s := scopeUpload_keeps actor id s
  have hframe := hread.frame (P := Answered answer) (fun _ _ ha hs => ha.grows hs) (fun _ _ ha hs => ha.grows hs) h
  exact keeps_bind hi hframe fun _ s₁ _ ha s₂ _ hs => ha.2.grows hs

theorem beginCohortScope_keeps (actor : Option Actor) (p : ScopeProposal) {s : ScopeState} (hi : ScopeOk env s) :
    KeepsScope env Answered (beginCohortScope env actor p) s := by
  have hbegun : ∀ (id : String) (s : ScopeState), ScopeOk env s →
      KeepsScope env Answered ((ScopeAnswer.begun id) <$> scopeUpload actor id) s :=
    fun id s hi => keeps_bind hi (scopeUpload_keeps actor id s) fun _ _ _ _ _ _ _ => trivial
  refine keeps_ofExcept_bind fun reviewer _ => keeps_ofExcept_bind fun metadata _ => ?_
  split
  · exact keeps_ofExcept fun _ h => nomatch h
  · next hproposal =>
    have hfew : p.expectedCount ≤ 100000 := by
      simp only [Bool.not_eq_false, isProposal, Bool.and_eq_true, decide_eq_true_eq] at hproposal
      exact hproposal.2
    have hbase : KeepsScope env (fun _ _ => True) (proposalBase p) s := by
      unfold proposalBase
      split
      · exact fun _ _ _ => trivial
      · refine keeps_read_bind fun s₁ _ _ => ?_
        split
        · exact keeps_ofExcept fun _ h => nomatch h
        · exact fun _ _ _ => trivial
    refine keeps_bind hi hbase fun base s₁ hi₁ _ => keeps_read_bind fun s₂ hi₂ _ => ?_
    split
    · exact hbegun _ _ hi₂
    · refine keeps_bind hi₂ (currentCohort_keeps p.cohortId s₂) fun current s₃ hi₃ _ => ?_
      split
      · exact keeps_ofExcept fun _ h => nomatch h
      · refine keeps_ofExcept_bind fun _ _ => ?_
        have hup : ∃ parts, Uploaded env (proposed p base metadata reviewer.id).upload parts :=
          ⟨[], uploaded_fresh metadata.lane p.expectedRevision base hfew reviewer.id⟩
        intro s₄ hi₄ _ _
        have hi₅ := fun id => insertUpload_ok hi₄ hup rfl id
        exact ⟨(hi₅ _).1, (hi₅ _).2, hbegun _ _ (hi₅ _).1⟩

theorem appendScope_keeps (hsha : Function.Injective env.sha256) {c : Catalog} (hc : CatalogSound env.jsNumber c)
    (actor : Option Actor) (id : String) (index : Nat) (input : List MemberInput) {s : ScopeState} (hi : ScopeOk env s) :
    KeepsScope env Answered (appendScope env c actor id index input) s := by
  refine keeps_bind hi (scopeUpload_keeps actor id s) fun row s₁ hi₁ hrow => ?_
  obtain ⟨⟨parts, hparts⟩, hseen⟩ := hrow
  split
  · exact keeps_ofExcept fun _ h => nomatch h
  · next hchecks =>
    simp only [not_or, Nat.not_le, Nat.not_lt] at hchecks
    obtain ⟨-, hne, hshort⟩ := hchecks
    refine keeps_ofExcept_bind fun members hmembers => ?_
    have hm := cohortManifest_takes hc hne hshort hmembers
    split
    · exact keeps_ofExcept fun _ h => nomatch h
    · refine keeps_read_bind fun s₂ hi₂ hs => ?_
      have hseen₂ := hseen.grows hs
      split
      · next previous hprevious =>
        split
        · exact keeps_ofExcept fun _ h => nomatch h
        · next hsame =>
          obtain ⟨now, hnow, hfind⟩ := Option.bind_eq_some_iff.mp hprevious
          obtain ⟨parts', hparts'⟩ := hi₂.uploads id now hnow
          have hmem := List.mem_of_find?_eq_some hfind
          -- a repeated append: the digest of the stored chunk is that of its members
          have hdigest := partRows_digest (hparts'.chunks ▸ hmem)
          have hjson : previous.membersJson = membersJson members := hsha (hdigest.symm.trans (not_not.mp hsame))
          have hanswered : Answered (.appended id index members) s₂ :=
            ⟨now, hnow, previous, hmem, by simpa using List.find?_some hfind, hjson⟩
          exact fun s₃ _ hs => hanswered.grows hs
      · split
        · exact keeps_ofExcept fun _ h => nomatch h
        · next hopen =>
          simp only [not_or, not_not, Nat.not_lt] at hopen
          obtain ⟨-, -, habove, hroom⟩ := hopen
          refine keeps_transact_bind fun s₃ hi₃ hs₃ _ => ?_
          obtain ⟨hi₄, hgrows, hanswered⟩ := appendStep_ok hi₃ (hseen₂.grows hs₃) hparts hm habove hroom index
          exact ⟨hi₄, hgrows, fun done hdone => answered_keeps actor id hi₄ (hanswered done hdone)⟩

theorem sealCohortScope_keeps (hsha : Function.Injective env.sha256) (hnumber : WritesSafe env.jsNumber) (actor : Option Actor)
    (id : String) (reason : JsString) (view : SealView) {s : ScopeState} (hi : ScopeOk env s) :
    KeepsScope env Answered (sealCohortScope env actor id reason view) s := by
  refine keeps_bind hi (scopeUpload_keeps actor id s) fun row s₁ hi₁ hrow => keeps_ofExcept_bind fun _ _ => ?_
  obtain ⟨⟨parts, hparts⟩, hseen⟩ := hrow
  split
  · exact keeps_read_bind fun _ _ _ _ _ _ => trivial
  · split
    · exact keeps_ofExcept fun _ h => nomatch h
    · next hcount =>
      have hread : KeepsScope env _ (currentCohort env row.cohortId) s₁ := currentCohort_keeps row.cohortId s₁
      have hcurrent := hread.frame (P := Seen id row) (fun _ _ ha hs => ha.grows hs) (fun _ _ ha hs => ha.grows hs) hseen
      refine keeps_bind hi₁ hcurrent fun current s₂ hi₂ hfound => ?_
      obtain ⟨hrecord, hseen₂⟩ := hfound
      split
      · exact keeps_ofExcept fun _ h => nomatch h
      · refine keeps_read_bind fun s₃ hi₃ hs₃ => ?_
        -- from here on the upload is as it was when its chunks were read
        obtain ⟨now, hnow, hlater⟩ := hseen₂.grows hs₃
        obtain ⟨parts', hparts'⟩ := hi₃.uploads id now hnow
        have hchunks : chunksOf (s₃.uploads id) = now.upload.chunks := by
          rw [hnow]
          exact hparts'.chunksOf
        rw [hchunks, ← hlater.cohort]
        rw [← hlater.cohort] at hrecord
        refine keeps_read_bind fun s₄ _ hs₄ => keeps_read_bind fun s₅ hi₅ hs₅ => keeps_ofExcept_bind fun count hwalk => ?_
        have hcount : count = now.upload.expectedCount := (sealWalk_ok hwalk).trans hlater.expected.symm
        subst hcount
        have hgrows₅ : ScopeGrows s₃ s₅ := trans_of ScopeGrows hs₄ hs₅
        have hseen₅ : Seen id now s₅ := hgrows₅.uploads id now hnow
        refine keeps_ofExcept_bind fun _ _ => keeps_ofExcept_bind fun _ _ => ?_
        generalize hmanifest : manifestText row.metadata _ (List.map ChunkRow.memberChunk _) _ _ = manifest
        generalize (ownerAreasOf _ ++ priorAreas env current).eraseDups = fence
        dsimp only
        split
        · exact keeps_ofExcept fun _ h => nomatch h
        · split
          · next same hsame =>
            obtain ⟨rfl, hhash⟩ := Option.filter_eq_some_iff.mp hsame
            obtain ⟨hrecord, hrevision⟩ := hrecord same rfl
            refine keeps_transact_bind fun s₆ hi₆ hs₆ _ => ?_
            have hgrows₆ := trans_of ScopeGrows (trans_of ScopeGrows hs₃ hgrows₅) hs₆
            obtain ⟨hi₇, hgrows⟩ := keepStep_ok hsha hnumber hi₆ (hseen₅.grows hs₆) (hgrows₆.tables _ _ hrecord).1 hrevision
              (hmanifest ▸ of_decide_eq_true hhash) fence view
            exact ⟨hi₇, hgrows, fun _ _ _ _ _ => trivial⟩
          · refine keeps_transact_bind fun s₆ hi₆ hs₆ _ => ?_
            obtain ⟨hi₇, hgrows⟩ := sealStep_ok hi₆ (hseen₅.grows hs₆) (current.map (·.head)) now.upload.expectedCount
              (row.upload.expectedRevision.getD 0 + 1) hmanifest.symm fence view
            exact ⟨hi₇, hgrows, fun _ _ _ _ _ => trivial⟩

/-! ## Runs -/

/-- A begin, an append or a seal, of any upload. -/
inductive ScopeRequest (env : ScopeEnv) : Nat → ScopeProg ScopeAnswer → Prop where
  | begin (n : Nat) (actor : Option Actor) (p : ScopeProposal) : ScopeRequest env n (beginCohortScope env actor p)
  | append (n : Nat) (c : Catalog) (actor : Option Actor) (id : String) (index : Nat) (input : List MemberInput) :
      CatalogSound env.jsNumber c → ScopeRequest env n (appendScope env c actor id index input)
  | sealed (n : Nat) (actor : Option Actor) (id : String) (reason : JsString) (view : SealView) :
      ScopeRequest env n (sealCohortScope env actor id reason view)

/-- What changes besides: the heads of cohorts, and revisions that have their members inline. -/
structure ScopeMoves (env : ScopeEnv) (s s' : ScopeState) : Prop where
  uploads : s'.uploads = s.uploads
  tables : ∀ id, ∃ revisions members, s'.tables id =
      ⟨(s.tables id).revisions ++ revisions, (s.tables id).chunks, (s.tables id).members ++ members⟩ ∧
    (∀ r ∈ revisions, env.sha256 r.manifestJson = r.manifestSha256 ∧
      (∃ values, env.readers.manifest r.manifestJson = .inline values) ∧
      ∀ old ∈ (s.tables id).revisions, old.revision ≠ r.revision) ∧
    ∀ m ∈ members, ∃ r ∈ revisions, r.revision = m.revision

theorem moves_ok (h : ScopeMoves env s s') (hi : ScopeOk env s) : ScopeOk env s' ∧ ScopeGrows s s' := by
  have hall : ∀ id, Kept env (s'.tables id) ∧ TablesGrow (s.tables id) (s'.tables id) := by
    intro id
    obtain ⟨revisions, members, htables, hrevisions, hmembers⟩ := h.tables id
    have hgrow : TablesGrow (s.tables id) (s'.tables id) := by
      rw [htables]
      intro r hr
      refine ⟨List.mem_append_left _ hr, rfl, ?_⟩
      have hnone : members.filter (·.revision = r.revision) = [] := List.filter_eq_nil_iff.mpr fun m hm => by
        obtain ⟨new, hnew, heq⟩ := hmembers m hm
        simpa [← heq] using ((hrevisions new hnew).2.2 r hr).symm
      rw [List.filter_append, hnone, List.append_nil]
    refine ⟨?_, hgrow⟩
    have hkept := hi.kept id
    rw [htables] at hgrow ⊢
    refine ⟨fun row hrow => ?_, fun row hrow => ?_, fun r hr => ?_⟩
    · obtain ⟨r, hr, heq⟩ := hkept.chunks row hrow
      exact ⟨r, List.mem_append_left _ hr, heq⟩
    · rcases List.mem_append.mp hrow with hrow | hrow
      · obtain ⟨r, hr, heq⟩ := hkept.members row hrow
        exact ⟨r, List.mem_append_left _ hr, heq⟩
      · obtain ⟨r, hr, heq⟩ := hmembers row hrow
        exact ⟨r, List.mem_append_right _ hr, heq⟩
    · rcases List.mem_append.mp hr with hr | hr
      · obtain ⟨hdigest, hform⟩ := hkept.revisions r hr
        exact ⟨hdigest, hform.imp (fun h => h) fun ⟨parts, hparts⟩ => ⟨parts, hparts.grows hr hgrow⟩⟩
      · obtain ⟨hdigest, hinline, -⟩ := hrevisions r hr
        exact ⟨hdigest, .inl hinline⟩
  refine ⟨⟨fun id row hrow => hi.uploads id row (h.uploads ▸ hrow), fun id => (hall id).1,
      fun id row revision hrow hsealed => ?_⟩,
    fun id row hrow => ⟨row, h.uploads ▸ hrow, .refl row⟩, fun id => (hall id).2⟩
  exact (hi.seals id row revision (h.uploads ▸ hrow) hsealed).grows fun other => (hall other).2

theorem scope_agree (hsha : Function.Injective env.sha256) (hnumber : WritesSafe env.jsNumber) :
    Pool.Agree (ScopeRequest env) (ScopeMoves env) (ScopeOk env) (fun _ _ => True) (fun _ => ScopeGrows) (fun _ => ScopeGrows)
      Answered where
  refl _ := inferInstance
  trans _ := inferInstance
  start := by
    intro n p s hp hi
    cases hp with
    | begin actor p => exact beginCohortScope_keeps actor p hi
    | append c actor id index input hc => exact appendScope_keeps hsha hc actor id index input hi
    | sealed actor id reason view => exact sealCohortScope_keeps hsha hnumber actor id reason view hi
  others _ _ _ h := h
  outside h hi := ⟨(moves_ok h hi).1, fun _ => (moves_ok h hi).2⟩

/-- No upload was begun, and all revisions have their members inline. -/
structure ScopeStart (env : ScopeEnv) (s : ScopeState) : Prop where
  uploads : ∀ id, s.uploads id = none
  chunks : ∀ id, (s.tables id).chunks = []
  members : ∀ id, ∀ row ∈ (s.tables id).members, ∃ r ∈ (s.tables id).revisions, r.revision = row.revision
  revisions : ∀ id, ∀ r ∈ (s.tables id).revisions, env.sha256 r.manifestJson = r.manifestSha256 ∧
    ∃ values, env.readers.manifest r.manifestJson = .inline values

theorem ScopeStart.ok (h : ScopeStart env s) : ScopeOk env s where
  uploads id row hrow := nomatch (h.uploads id).symm.trans hrow
  kept id := ⟨by simp [h.chunks id], h.members id, fun r hr => ⟨(h.revisions id r hr).1, .inl (h.revisions id r hr).2⟩⟩
  seals id row revision hrow := nomatch (h.uploads id).symm.trans hrow

/-- Whatever the order of the begins, appends and seals: a sealed upload has the
members that were appended, in the strict order of their names and as many as were
declared, and its revision has them too, in its rows, its pages and its stream. -/
theorem sealed_scope (hsha : Function.Injective env.sha256) (hnumber : WritesSafe env.jsNumber) {first : ScopeState}
    (hfirst : ScopeStart env first) {pool : Pool ScopeState PolicyError ScopeAnswer}
    (hsteps : Pool.Steps (ScopeRequest env) (ScopeMoves env) ⟨first, []⟩ pool) {id : String} {row : ScopeRow}
    (hrow : pool.state.uploads id = some row) {revision : Nat} (hsealed : row.upload.sealedRevision = some revision) :
    ∃ parts : List (List CohortMember),
      (∀ (n index : Nat) (members : List CohortMember), pool.tasks[n]? = some (done (.appended id index members)) →
        (parts[index]?).map membersJson = some (membersJson members)) ∧
      row.upload.chunks.map (·.index) = List.range parts.length ∧
      row.upload.chunks.map (·.membersJson) = parts.map membersJson ∧
      row.upload.entries.map (·.member) = parts.flatten ∧
      (parts.flatten.map (·.pkgbase)).Pairwise (fun a b => ¬UnitsLE b a) ∧
      parts.flatten.length = row.upload.expectedCount ∧
      ∃ r ∈ (pool.state.tables row.cohortId).revisions, r.revision = revision ∧
        ((pool.state.tables row.cohortId).chunks.filter (·.revision = revision)).map (fun c => (c.index, c.membersJson)) =
          row.upload.chunks.map (fun c => (c.index, c.membersJson)) ∧
        (pool.state.tables row.cohortId).members.filter (·.revision = revision) =
          parts.flatten.mapIdx (fun ordinal m => ⟨revision, m.pkgbase, some ordinal⟩) ∧
        (∀ start limit, start ≤ maxSafeInteger → 1 ≤ limit → limit ≤ 512 →
          cohortMembers env.readers (pool.state.tables row.cohortId) r start limit =
            .ok (((parts.flatten.map storedValue).drop start).take limit)) ∧
        cohortMemberStream env.readers (pool.state.tables row.cohortId) r = .ok (parts.flatten.map storedValue) := by
  have hgood := (Pool.good_start hfirst.ok).steps (scope_agree hsha hnumber) hsteps
  -- an unchanged seal is of a revision made of other parts, whose texts are the same
  have hi := hgood.1
  obtain ⟨parts, hparts⟩ := hi.uploads id row hrow
  obtain ⟨hfull, r, hr, hrevision, parts', hsealed', htexts⟩ := hi.seals id row revision hrow hsealed
  have hjson : row.upload.chunks.map (·.membersJson) = parts.map membersJson := by rw [hparts.chunks, partRows_json]
  have hindex : row.upload.chunks.map (·.index) = List.range parts.length := by
    rw [hparts.chunks, partRows_index, List.range_eq_range']
  have hsame : parts'.map (List.map storedValue) = parts.map (List.map storedValue) :=
    stored_of_texts hnumber hsealed'.sound.values hparts.sound.values (htexts.trans hjson)
  have hvalues : parts'.flatten.map storedValue = parts.flatten.map storedValue := by rw [List.map_flatten, hsame, List.map_flatten]
  have hstored := hsealed'.stored hnumber
  rw [hvalues] at hstored
  subst hrevision
  refine ⟨parts, ?_, hindex, hjson, hparts.members, hparts.sound.ordered, hparts.count.symm.trans hfull, r, hr, rfl, ?_, ?_, ?_, ?_⟩
  · intro n index members htask
    obtain ⟨now, hnow, chunk, hchunk, rfl, htext⟩ := hgood.2 n _ htask pool.state hi (refl_of ScopeGrows _)
    obtain rfl : row = now := Option.some.inj (hrow.symm.trans hnow)
    obtain ⟨i, hlt, rfl⟩ := List.getElem_of_mem hchunk
    have hat : row.upload.chunks[i].index = i := by
      have hget := List.getElem_of_eq hindex (i := i) (by rwa [List.length_map])
      rwa [List.getElem_map, List.getElem_range] at hget
    have hparts : i < parts.length := by
      have hlength := congrArg List.length hjson
      rw [List.length_map, List.length_map] at hlength
      exact hlength ▸ hlt
    have hpart : row.upload.chunks[i].membersJson = membersJson parts[i] := by
      have hget := List.getElem_of_eq hjson (i := i) (by rwa [List.length_map])
      rwa [List.getElem_map, List.getElem_map] at hget
    rw [hat, List.getElem?_eq_getElem hparts, Option.map_some, ← hpart, htext]
  · have hlength := congrArg List.length (htexts.trans hjson)
    rw [List.length_map, List.length_map] at hlength
    have hrows (rows : List ChunkRow) : rows.map (fun c => (c.index, c.membersJson)) =
        (rows.map (·.index)).zip (rows.map (·.membersJson)) := List.zip_map'.symm
    rw [hsealed'.chunks, List.map_map]
    refine Eq.trans (hrows _) ?_
    rw [hrows, hindex, partRows_index, partRows_json, hlength, ← htexts, List.range_eq_range']
  · rw [hsealed'.members, hvalues]
    exact memberRows_stored r.revision parts.flatten
  · exact fun start limit hstart hlimit hshort => hstored.page_ok hstart hlimit hshort
  · exact hstored.stream_ok

end

/-! ## A sealed upload of one member -/

def sampleMetadata : CohortMetadata := ⟨units "t", .opr, none, none, []⟩

def sampleProposal : ScopeProposal := ⟨"c", none, .ok sampleMetadata, 1, "p"⟩

def sampleInput : List MemberInput := [⟨"tool", 1, none, .rebuild, units "r"⟩]

def sampleMember : CohortMember := ⟨"tool", 1, emptySha256, samplePolicy, none, .rebuild, units "r"⟩

def sampleUpload : String := "7e89aad2405db43fb4efc876a28c0068947c2347aa58fe3f2baf121f2c6257b5"

def sampleChunkSha256 : String := "6d1691685240d8bf947f65e14d9d90c59234436ad886ee64743052b90dae0a2d"

def sampleManifestSha256 : String := "d3d7979a9eb1fa6f2da9e675d5c2a4ba8a4a205b3a9e6b20559f74720b03c521"

/-- The texts of the run with their digests. -/
def sampleDigests : List (List Char × String) := [
  (proposalText sampleProposal none sampleMetadata sampleReviewer.id, sampleUpload),
  (membersJson [sampleMember], sampleChunkSha256),
  (manifestText sampleMetadata 1 [⟨0, 0, 1, "tool", "tool", sampleChunkSha256⟩] ["system"] [.aarch64, .x86_64],
    sampleManifestSha256)]

/-- The digests of the run's texts; any other text is its own. -/
def sampleSha256 (text : List Char) : String := (sampleDigests.lookup text).getD (String.ofList ('!' :: text))

theorem mem_of_lookup {α β : Type} [BEq α] [LawfulBEq α] {l : List (α × β)} {a : α} {b : β}
    (h : l.lookup a = some b) : (a, b) ∈ l := by
  induction l with
  | nil => cases h
  | cons x l ih =>
    obtain ⟨k, v⟩ := x
    rw [List.lookup_cons] at h
    split at h
    · next heq =>
      obtain rfl := eq_of_beq heq
      cases h
      exact List.mem_cons_self
    · exact List.mem_cons_of_mem _ (ih h)

theorem sampleSha256_injective : Function.Injective sampleSha256 := by
  have honce : (sampleDigests.map Prod.snd).Nodup := by
    simp [sampleDigests, sampleUpload, sampleChunkSha256, sampleManifestSha256]
  have hhex : ∀ digest ∈ sampleDigests.map Prod.snd, digest.toList.head? ≠ some '!' :=
    fun digest h => by simpa using List.all_eq_true.mp (show (sampleDigests.map Prod.snd).all
      (fun digest => digest.toList.head? != some '!') = true by decide) digest h
  have hother : ∀ {a b : List Char} {digest : String}, sampleDigests.lookup a = some digest →
      digest ≠ String.ofList ('!' :: b) := by
    intro a b digest ha heq
    refine hhex digest (List.mem_map_of_mem (f := Prod.snd) (mem_of_lookup ha)) ?_
    rw [heq, String.toList_ofList]
    rfl
  intro a b h
  unfold sampleSha256 at h
  cases ha : sampleDigests.lookup a with
  | some digest =>
    rw [ha, Option.getD_some] at h
    cases hb : sampleDigests.lookup b with
    | some digest' =>
      rw [hb, Option.getD_some] at h
      exact congrArg Prod.fst (List.inj_on_of_nodup_map honce (mem_of_lookup ha) (mem_of_lookup hb) h)
    | none =>
      rw [hb, Option.getD_none] at h
      exact absurd h (hother ha)
  | none =>
    rw [ha, Option.getD_none] at h
    cases hb : sampleDigests.lookup b with
    | some digest =>
      rw [hb, Option.getD_some] at h
      exact absurd h.symm (hother hb)
    | none =>
      rw [hb, Option.getD_none] at h
      exact List.tail_eq_of_cons_eq (String.ofList_injective h)

def sampleScopeEnv : ScopeEnv := ⟨id, sampleSha256, fun _ => []⟩

def sampleScopeStart : ScopeState := ⟨fun _ => none, fun _ => none, fun _ => ⟨[], [], []⟩⟩

def sampleView : SealView := ⟨fun _ => true, fun _ => true, fun _ => true, fun _ => false, true, "e"⟩

def sampleAppend : ScopeProg ScopeAnswer :=
  appendScope sampleScopeEnv sampleCatalog (some sampleReviewer) sampleUpload 0 sampleInput

/-- A begin, two appends of one chunk side by side, and a seal. -/
def sampleScopeRun : Pool ScopeState PolicyError ScopeAnswer :=
  (((((⟨sampleScopeStart, []⟩ : Pool ScopeState PolicyError ScopeAnswer).starting
    (beginCohortScope sampleScopeEnv (some sampleReviewer) sampleProposal)).turns [0, 0, 0, 0]).starting sampleAppend).starting
    sampleAppend).starting (sealCohortScope sampleScopeEnv (some sampleReviewer) sampleUpload (units "r") sampleView) |>.turns
      [1, 2, 1, 1, 2, 1, 2, 2, 3, 3, 3, 3, 3, 3]

theorem sampleCatalog_sound : CatalogSound id sampleCatalog where
  policies text policy h := by
    cases h
    trivial
  revisions name record h := by
    cases h
    decide

theorem sampleScopeRun_steps :
    Pool.Steps (ScopeRequest sampleScopeEnv) (ScopeMoves sampleScopeEnv) ⟨sampleScopeStart, []⟩ sampleScopeRun := by
  have happend : ∀ n, ScopeRequest sampleScopeEnv n sampleAppend := fun n => .append n _ _ _ _ _ sampleCatalog_sound
  exact ((((((Pool.Steps.starting .refl (.begin _ _ _)).turns _).starting (happend _)).starting (happend _)).starting
    (.sealed _ _ _ _ _)).turns _)

theorem sampleScopeRun_revision :
    (sampleScopeRun.state.uploads sampleUpload).bind (·.upload.sealedRevision) = some 1 := by decide +kernel

theorem sampleScopeRun_sealed : ∃ row, sampleScopeRun.state.uploads sampleUpload = some row ∧
    ∃ parts : List (List CohortMember), row.upload.chunks.map (·.membersJson) = parts.map membersJson ∧
      parts.flatten.length = row.upload.expectedCount ∧ ∃ r ∈ (sampleScopeRun.state.tables row.cohortId).revisions,
        cohortMemberStream sampleScopeEnv.readers (sampleScopeRun.state.tables row.cohortId) r =
          .ok (parts.flatten.map storedValue) := by
  obtain ⟨row, hrow, hsealed⟩ := Option.bind_eq_some_iff.mp sampleScopeRun_revision
  have hstart : ScopeStart sampleScopeEnv sampleScopeStart :=
    ⟨fun _ => rfl, fun _ => rfl, fun _ _ h => absurd h List.not_mem_nil, fun _ _ h => absurd h List.not_mem_nil⟩
  obtain ⟨parts, -, -, hjson, -, -, hcount, r, hr, -, -, -, -, hstream⟩ :=
    sealed_scope sampleSha256_injective (fun _ _ => rfl) hstart sampleScopeRun_steps hrow hsealed
  exact ⟨row, hrow, parts, hjson, hcount, r, hr, hstream⟩

end Omapkg.Server.Scope
