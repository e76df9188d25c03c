import Omapkg.Server.ScopeSeals
/-!
# What an upload and a revision have

The chunks and entries of an upload are those of the parts that were appended, in
the order of their names, and a seal copies them to a revision that has the same
members.
-/

namespace Omapkg.Server.Scope

open Utf Json Prog Fallible Arch
open Cohort (isIdentifier)
open Dependency (Actor humanMaintainer)
open Rebuild (UnitsLE)

/-! ## Rows of parts -/

def chunkRowOf (sha256 : List Char → String) (index start : Nat) (members : List CohortMember) : ChunkRow :=
  ⟨index, start, members.length, firstName members, finalName members, membersJson members, sha256 (membersJson members)⟩

/-- The chunks of `parts`, from an index and a start on. -/
def partRows (sha256 : List Char → String) : Nat → Nat → List (List CohortMember) → List ChunkRow
  | _, _, [] => []
  | index, start, p :: parts => chunkRowOf sha256 index start p :: partRows sha256 (index + 1) (start + p.length) parts

/-- Parts that an upload may have. -/
structure SoundParts (jsNumber : Numeral → Numeral) (parts : List (List CohortMember)) : Prop where
  short : ∀ p ∈ parts, p ≠ [] ∧ p.length ≤ 100
  ordered : (parts.flatten.map (·.pkgbase)).Pairwise fun a b => ¬UnitsLE b a
  named : ∀ m ∈ parts.flatten, isPackageName m.pkgbase.toList = true
  values : ∀ m ∈ parts.flatten, SoundMember jsNumber m

/-- An upload after `parts`. -/
structure Uploaded (env : ScopeEnv) (u : ScopeUpload) (parts : List (List CohortMember)) : Prop where
  chunks : u.chunks = partRows env.sha256 0 0 parts
  members : u.entries.map (·.member) = parts.flatten
  ordinals : u.entries.map (·.ordinal) = List.range parts.flatten.length
  next : u.nextChunk = parts.length
  count : u.memberCount = parts.flatten.length
  last : u.lastPkgbase = (parts.flatten.map (·.pkgbase)).getLast?.getD ""
  sound : SoundParts env.jsNumber parts
  fits : parts.flatten.length ≤ u.expectedCount
  few : u.expectedCount ≤ 100000

section
variable {sha256 : List Char → String}

theorem partRows_concat (index start : Nat) (parts : List (List CohortMember)) (p : List CohortMember) :
    partRows sha256 index start (parts ++ [p]) =
      partRows sha256 index start parts ++ [chunkRowOf sha256 (index + parts.length) (start + parts.flatten.length) p] := by
  induction parts generalizing index start with
  | nil => simp [partRows]
  | cons q parts ih =>
    rw [List.cons_append, partRows, ih, partRows, List.cons_append, List.flatten_cons, List.length_append, List.length_cons,
      Nat.add_assoc index 1, Nat.add_comm 1 parts.length, Nat.add_assoc start]

@[simp] theorem partRows_length (index start : Nat) (parts : List (List CohortMember)) :
    (partRows sha256 index start parts).length = parts.length := by
  induction parts generalizing index start with
  | nil => rfl
  | cons q parts ih => rw [partRows, List.length_cons, List.length_cons, ih]

theorem partRows_index (index start : Nat) (parts : List (List CohortMember)) :
    (partRows sha256 index start parts).map (·.index) = List.range' index parts.length := by
  induction parts generalizing index start with
  | nil => rfl
  | cons q parts ih => rw [partRows, List.map_cons, ih, List.length_cons, List.range'_succ]; rfl

theorem partRows_json (index start : Nat) (parts : List (List CohortMember)) :
    (partRows sha256 index start parts).map (·.membersJson) = parts.map membersJson := by
  induction parts generalizing index start with
  | nil => rfl
  | cons q parts ih => rw [partRows, List.map_cons, ih]; rfl

end

section
variable {env : ScopeEnv} {u : ScopeUpload} {parts : List (List CohortMember)}

theorem uploaded_fresh (lane : Lane) (revision : Option Nat) (base : Option String) {expected : Nat} (hfew : expected ≤ 100000)
    (createdBy : String) : Uploaded env (.fresh lane revision base expected createdBy) [] where
  chunks := rfl
  members := rfl
  ordinals := rfl
  next := rfl
  count := rfl
  last := rfl
  sound := ⟨by simp, by simp, by simp, by simp⟩
  fits := Nat.zero_le _
  few := hfew

theorem pairwise_unitsLE {names : List String} (h : names.Pairwise fun a b => ¬UnitsLE b a) : names.Pairwise UnitsLE :=
  h.imp fun hab => (le_total (α := List Nat) _ _).resolve_right hab

/-- Members a chunk may have. -/
structure SoundMembers (jsNumber : Numeral → Numeral) (members : List CohortMember) : Prop where
  short : members ≠ [] ∧ members.length ≤ 100
  ordered : (members.map (·.pkgbase)).Pairwise fun a b => ¬UnitsLE b a
  named : ∀ m ∈ members, isPackageName m.pkgbase.toList = true
  values : ∀ m ∈ members, SoundMember jsNumber m

theorem firstName_eq (members : List CohortMember) : firstName members = (members.map (·.pkgbase)).head?.getD "" := by
  rw [firstName, List.head?_map]

theorem finalName_eq (members : List CohortMember) : finalName members = (members.map (·.pkgbase)).getLast?.getD "" := by
  rw [finalName, List.getLast?_map]

theorem SoundParts.concat (h : SoundParts env.jsNumber parts) {members : List CohortMember} (hm : SoundMembers env.jsNumber members)
    (habove : ¬UnitsLE (firstName members) ((parts.flatten.map (·.pkgbase)).getLast?.getD "")) :
    SoundParts env.jsNumber (parts ++ [members]) := by
  have hflatten : (parts ++ [members]).flatten = parts.flatten ++ members := by simp
  refine ⟨?_, ?_, ?_, ?_⟩
  · intro p hp
    rcases List.mem_append.mp hp with hp | hp
    · exact h.short p hp
    · rw [List.mem_singleton.mp hp]
      exact hm.short
  · rw [hflatten, List.map_append, List.pairwise_append]
    refine ⟨h.ordered, hm.ordered, fun a ha b hb hle => habove ?_⟩
    have hne : parts.flatten.map (·.pkgbase) ≠ [] := List.ne_nil_of_mem ha
    have hne' : members.map (·.pkgbase) ≠ [] := List.ne_nil_of_mem hb
    -- a name before the chunk is at most the last one, which is below the first of the chunk
    have hlast := (ends_of_pairwise (pairwise_unitsLE h.ordered) hne).2.2 a ha
    have hfirst := (ends_of_pairwise (pairwise_unitsLE hm.ordered) hne').1.2 b hb
    rw [firstName_eq]
    exact le_trans (α := List Nat) hfirst (le_trans (α := List Nat) hle hlast)
  · rw [hflatten]
    exact fun m hmem => (List.mem_append.mp hmem).elim (h.named m) (hm.named m)
  · rw [hflatten]
    exact fun m hmem => (List.mem_append.mp hmem).elim (h.values m) (hm.values m)

/-- What an append makes of an upload. -/
theorem Uploaded.concat (h : Uploaded env u parts) {members : List CohortMember} (hm : SoundMembers env.jsNumber members)
    (habove : ¬UnitsLE (firstName members) u.lastPkgbase) (hroom : u.memberCount + members.length ≤ u.expectedCount) :
    Uploaded env (appendBatch u parts.length (firstName members) (finalName members) members (membersJson members)
      (env.sha256 (membersJson members))) (parts ++ [members]) := by
  have hflatten : (parts ++ [members]).flatten = parts.flatten ++ members := by simp
  have hlength : (parts ++ [members]).flatten.length = parts.flatten.length + members.length := by
    rw [hflatten, List.length_append]
  refine ⟨?_, ?_, ?_, ?_, ?_, ?_, h.sound.concat hm (h.last ▸ habove), ?_, h.few⟩
  · rw [partRows_concat, ← h.chunks, Nat.zero_add, Nat.zero_add, ← h.count]
    rfl
  · rw [appendBatch, List.map_append, h.members, hflatten]
    exact congrArg _ (List.ext_getElem (by simp) (by simp))
  · rw [appendBatch, List.map_append, h.ordinals, hlength, List.range_add, h.count]
    exact congrArg _ (List.ext_getElem (by simp) (by simp))
  · rw [appendBatch, h.next, List.length_append, List.length_singleton]
  · rw [hlength, ← h.count]
    rfl
  · rw [hflatten, List.map_append, List.getLast?_append_of_ne_nil _ (by simpa using hm.short.1), ← finalName_eq]
    rfl
  · rw [hlength, ← h.count]
    exact hroom

end

theorem copied_members {env : ScopeEnv} {entries : List EntryRow} {members : List CohortMember}
    (hmembers : entries.map (·.member) = members) (hordinals : entries.map (·.ordinal) = List.range members.length)
    (revision : Nat) : (entries.map fun e => (⟨revision, e.member.pkgbase, some e.ordinal⟩ : MemberRow)) =
      memberRows env.readers revision (members.map storedValue) true := by
  have hlength : entries.length = members.length := by rw [← hmembers, List.length_map]
  refine List.ext_getElem (by simp [memberRows, hlength]) fun i hi hi' => ?_
  have hi : i < entries.length := by simpa using hi
  have hordinal : entries[i].ordinal = i := by
    have hget := List.getElem_of_eq hordinals (i := i) (by simpa using hi)
    simpa using hget
  have hmember : entries[i].member = members[i] := by
    have hget := List.getElem_of_eq hmembers (i := i) (by simpa using hi)
    simpa using hget
  have hname : env.readers.pkgbase (storedValue members[i]) = members[i].pkgbase := storedValue_pkgbase _
  simp [memberRows, hordinal, hmember, hname]

/-! ## What an append takes -/

/-- Policies of the catalog are values, and revisions are safe integers. -/
structure CatalogSound (jsNumber : Numeral → Numeral) (c : Catalog) : Prop where
  policies : ∀ text policy, c.policy text = .ok policy → IsValue jsNumber policy.document
  revisions : ∀ name record, c.packages name = some record → record.revision ≤ maxSafeInteger

section
variable {jsNumber : Numeral → Numeral} {c : Catalog} {actor : Option Actor} {lane : Lane}

theorem memberInput_takes {m m' : MemberInput} (h : memberInput m = .ok m') :
    m'.pkgbase = m.pkgbase ∧ isPackageName m'.pkgbase.toList = true := by
  unfold memberInput at h
  split at h
  · split at h
    next hchecks =>
      cases h
      exact ⟨rfl, hchecks.1⟩
    next => cases h
  · cases h

theorem cohortMember_takes (hc : CatalogSound jsNumber c) {m : MemberInput} {x : CohortMember}
    (h : cohortMember c actor lane m = .ok x) : x.pkgbase = m.pkgbase ∧ SoundMember jsNumber x := by
  unfold cohortMember at h
  split at h
  · cases h
  · next record hrecord =>
    obtain ⟨-, h⟩ := guard_ok.mp h
    obtain ⟨policy, hpolicy, h⟩ := bind_ok.mp h
    obtain ⟨-, h⟩ := guard_ok.mp h
    obtain ⟨-, -, h⟩ := bind_ok.mp h
    obtain ⟨-, h⟩ := guard_ok.mp h
    split at h
    · cases h
      exact ⟨rfl, hc.revisions _ _ hrecord, hc.policies _ _ hpolicy⟩
    · obtain ⟨recipe, -, h⟩ := bind_ok.mp h
      cases h
      exact ⟨rfl, hc.revisions _ _ hrecord, hc.policies _ _ hpolicy⟩

/-- The members of a manifest are in the strict order of their names. -/
theorem cohortManifest_takes (hc : CatalogSound jsNumber c) {input : List MemberInput} {members : List CohortMember}
    (hne : input ≠ []) (hshort : input.length ≤ 100) (h : cohortManifest c actor lane input = .ok members) :
    SoundMembers jsNumber members := by
  obtain ⟨-, -, h⟩ := bind_ok.mp h
  obtain ⟨requested, hrequested, h⟩ := bind_ok.mp h
  obtain ⟨hnodup, h⟩ := guard_ok.mp h
  rw [not_not] at hnodup
  have hnames : members.map (·.pkgbase) = (requested.insertionSort byName).map (·.pkgbase) :=
    map_of_mapM (fun _ _ hx => (cohortMember_takes hc hx).1) h
  have hperm : (members.map (·.pkgbase)).Perm (requested.map (·.pkgbase)) :=
    hnames ▸ (List.perm_insertionSort byName requested).map _
  have hlength : members.length = input.length := by
    have hkeys : requested.map (·.pkgbase) = input.map (·.pkgbase) :=
      map_of_mapM (fun _ _ hx => (memberInput_takes hx).1) hrequested
    have hsent := congrArg List.length hkeys
    have hsame := hperm.length_eq
    simp only [List.length_map] at hsent hsame
    omega
  have hmem : ∀ x ∈ members, ∃ m ∈ requested.insertionSort byName, cohortMember c actor lane m = .ok x := fun x hx =>
    mem_mapM h hx
  refine ⟨⟨?_, hlength ▸ hshort⟩, ?_, ?_, ?_⟩
  · intro hnil
    rw [hnil] at hlength
    exact hne (List.length_eq_zero_iff.mp hlength.symm)
  · have hle : (members.map (·.pkgbase)).Pairwise UnitsLE := hnames ▸ byName_pairwise requested
    refine (List.pairwise_and_iff.mpr ⟨hle, hperm.nodup_iff.mpr hnodup⟩).imp fun ⟨hab, hne⟩ hba => hne (hab.antisymm hba)
  · intro x hx
    obtain ⟨m, hm, hok⟩ := hmem x hx
    obtain ⟨m', -, hm'⟩ := mem_mapM hrequested ((List.perm_insertionSort byName requested).mem_iff.mp hm)
    rw [(cohortMember_takes hc hok).1]
    exact (memberInput_takes hm').2
  · intro x hx
    obtain ⟨m, -, hok⟩ := hmem x hx
    exact (cohortMember_takes hc hok).2

end

/-! ## Revisions -/

/-- The row of a revision that is a copy of a chunk. -/
def ChunkRow.copied (revision : Nat) (chunk : ChunkRow) : RevisionChunk :=
  ⟨revision, chunk.index, chunk.membersJson, chunk.sha256⟩

/-- A revision was made of `parts`. -/
structure SealedAs (env : ScopeEnv) (t : CohortTables) (r : ScopeRecord) (parts : List (List CohortMember)) : Prop where
  manifest : ∃ metadata areas targets, r.manifestJson = manifestText metadata parts.flatten.length
    ((partRows env.sha256 0 0 parts).map ChunkRow.memberChunk) areas targets
  digest : env.sha256 r.manifestJson = r.manifestSha256
  chunks : t.chunks.filter (·.revision = r.revision) = (partRows env.sha256 0 0 parts).map (ChunkRow.copied r.revision)
  members : t.members.filter (·.revision = r.revision) =
    memberRows env.readers r.revision (parts.flatten.map storedValue) true
  sound : SoundParts env.jsNumber parts
  few : parts.flatten.length ≤ 100000

section
variable {env : ScopeEnv} {t t' : CohortTables} {r : ScopeRecord} {parts : List (List CohortMember)}

theorem partRows_bounds {sha256 : List Char → String} {chunk : ChunkRow} {index start : Nat}
    (h : chunk ∈ partRows sha256 index start parts) :
    chunk.index < index + parts.length ∧ chunk.start ≤ start + parts.flatten.length ∧ chunk.count ≤ parts.flatten.length := by
  induction parts generalizing index start with
  | nil => cases h
  | cons p parts ih =>
    rw [List.length_cons, List.flatten_cons, List.length_append]
    rcases List.mem_cons.mp h with rfl | h
    · simp only [chunkRowOf]
      omega
    · have hrest := ih h
      omega

theorem length_le_flatten (h : ∀ p ∈ parts, p ≠ []) : parts.length ≤ parts.flatten.length := by
  induction parts with
  | nil => exact Nat.le_refl 0
  | cons p parts ih =>
    have hp := List.length_pos_iff.mpr (h p List.mem_cons_self)
    have hrest := ih fun q hq => h q (List.mem_cons_of_mem _ hq)
    rw [List.length_cons, List.flatten_cons, List.length_append]
    omega

theorem readers_pkgbase (members : List CohortMember) :
    (members.map storedValue).map env.readers.pkgbase = members.map (·.pkgbase) := by
  rw [List.map_map]
  exact List.map_congr_left fun m _ => storedValue_pkgbase m

theorem chunksHold_parts (hnumber : WritesSafe env.jsNumber) {revision index start : Nat}
    (hshort : ∀ p ∈ parts, p ≠ [] ∧ p.length ≤ 100) (hvalues : ∀ m ∈ parts.flatten, SoundMember env.jsNumber m)
    (hrows : ∀ chunk ∈ partRows env.sha256 index start parts, chunk.copied revision ∈ t.chunks) :
    ChunksHold env.readers t revision index start (parts.map (List.map storedValue))
      ((partRows env.sha256 index start parts).map ChunkRow.memberChunk) := by
  induction parts generalizing index start with
  | nil => exact .nil index start
  | cons p parts ih =>
    rw [partRows, List.forall_mem_cons] at hrows
    rw [List.forall_mem_cons] at hshort
    rw [List.flatten_cons] at hvalues
    have hread : env.readers.members (membersJson p) = p.map storedValue :=
      membersJson_read hnumber fun m hm => hvalues m (List.mem_append_left _ hm)
    have hrest := ih hshort.2 (fun m hm => hvalues m (List.mem_append_right _ hm)) hrows.2
    refine .cons hrows.1 rfl rfl rfl hread (by simpa using hshort.1.1) (by simpa using hshort.1.2) ?_ ?_
    · have hhead : ((p.map storedValue).head?.map env.readers.pkgbase).getD "" = firstName p := by
        rw [← List.head?_map, readers_pkgbase, firstName_eq]
      have hlast : ((p.map storedValue).getLast?.map env.readers.pkgbase).getD "" = finalName p := by
        rw [← List.getLast?_map, readers_pkgbase, finalName_eq]
      rw [hhead, hlast, List.length_map]
      rfl
    · rw [List.length_map]
      exact hrest

theorem SealedAs.manifest_read (hnumber : WritesSafe env.jsNumber) (h : SealedAs env t r parts) :
    env.readers.manifest r.manifestJson =
      .chunked parts.flatten.length ((partRows env.sha256 0 0 parts).map ChunkRow.memberChunk) := by
  obtain ⟨metadata, areas, targets, hjson⟩ := h.manifest
  have hlength := length_le_flatten fun p hp => (h.sound.short p hp).1
  have hfew := h.few
  have hbound : 100000 < maxSafeInteger := by decide
  rw [hjson]
  refine manifestText_read metadata areas targets hnumber (by omega) fun chunk hchunk => ?_
  obtain ⟨row, hrow, rfl⟩ := List.mem_map.mp hchunk
  obtain ⟨hindex, hstart, hcount⟩ := partRows_bounds hrow
  simp only [ChunkRow.memberChunk]
  omega

/-- The revision has the members of the parts. -/
theorem SealedAs.stored (hnumber : WritesSafe env.jsNumber) (h : SealedAs env t r parts) :
    Stored env.readers t r (parts.flatten.map storedValue) where
  intact := h.digest
  ordered := by
    rw [readers_pkgbase]
    exact h.sound.ordered
  named := by
    intro v hv
    obtain ⟨m, hm, rfl⟩ := List.mem_map.mp hv
    have hname : env.readers.pkgbase (storedValue m) = m.pkgbase := storedValue_pkgbase m
    rw [hname]
    exact h.sound.named m hm
  few := by
    rw [List.length_map]
    exact h.few
  form := by
    refine .inr ⟨⟨(partRows env.sha256 0 0 parts).map ChunkRow.memberChunk, parts.map (List.map storedValue), ?_, ?_, ?_, ?_⟩,
      h.members ▸ .refl _⟩
    · rw [List.length_map]
      exact h.manifest_read hnumber
    · rw [List.map_flatten]
    · refine chunksHold_parts hnumber h.sound.short h.sound.values fun chunk hchunk => ?_
      have hmem : chunk.copied r.revision ∈ t.chunks.filter (·.revision = r.revision) :=
        h.chunks ▸ List.mem_map_of_mem hchunk
      exact (List.mem_filter.mp hmem).1
    · have hindex : ((partRows env.sha256 0 0 parts).map (ChunkRow.copied r.revision)).map (·.index) = List.range' 0 parts.length := by
        rw [List.map_map]
        exact partRows_index 0 0 parts
      rw [h.chunks, hindex, List.length_map, List.range_eq_range']

/-- Nothing that a revision has is changed. -/
def TablesGrow (t t' : CohortTables) : Prop := ∀ r ∈ t.revisions, r ∈ t'.revisions ∧
  t'.chunks.filter (·.revision = r.revision) = t.chunks.filter (·.revision = r.revision) ∧
  t'.members.filter (·.revision = r.revision) = t.members.filter (·.revision = r.revision)

theorem SealedAs.grows (h : SealedAs env t r parts) (hr : r ∈ t.revisions) (ht : TablesGrow t t') : SealedAs env t' r parts := by
  obtain ⟨-, hchunks, hmembers⟩ := ht r hr
  exact ⟨h.manifest, h.digest, hchunks ▸ h.chunks, hmembers ▸ h.members, h.sound, h.few⟩

/-- What is kept of a cohort. -/
structure Kept (env : ScopeEnv) (t : CohortTables) : Prop where
  chunks : ∀ row ∈ t.chunks, ∃ r ∈ t.revisions, r.revision = row.revision
  members : ∀ row ∈ t.members, ∃ r ∈ t.revisions, r.revision = row.revision
  revisions : ∀ r ∈ t.revisions, env.sha256 r.manifestJson = r.manifestSha256 ∧
    ((∃ values, env.readers.manifest r.manifestJson = .inline values) ∨ ∃ parts, SealedAs env t r parts)

/-- A seal adds a revision and changes nothing of the others. -/
theorem Kept.sealed (h : Kept env t) {u : ScopeUpload} (hu : Uploaded env u parts) (hfull : u.memberCount = u.expectedCount)
    {revision : Nat} {metadata : CohortMetadata} {areas : List String} {targets : List Architecture} {manifest : List Char}
    (hmanifest : manifest = manifestText metadata u.expectedCount (u.chunks.map ChunkRow.memberChunk) areas targets)
    (hunique : TablesUnique (sealedTables t revision manifest (env.sha256 manifest) u)) :
    Kept env (sealedTables t revision manifest (env.sha256 manifest) u) ∧
      TablesGrow t (sealedTables t revision manifest (env.sha256 manifest) u) ∧
      SealedAs env (sealedTables t revision manifest (env.sha256 manifest) u) ⟨revision, manifest, env.sha256 manifest⟩ parts := by
  -- the keys of the tables refuse a revision that is there
  have hfresh : ∀ r ∈ t.revisions, r.revision ≠ revision := by
    have hnodup := hunique.1
    rw [sealedTables, List.map_append, List.nodup_append] at hnodup
    exact fun r hr => hnodup.2.2 _ (List.mem_map_of_mem hr) _ (by simp)
  have hcount : parts.flatten.length = u.expectedCount := hu.count.symm.trans hfull
  have hgrow : TablesGrow t (sealedTables t revision manifest (env.sha256 manifest) u) := by
    intro r hr
    have hne : revision ≠ r.revision := fun h => hfresh r hr h.symm
    refine ⟨List.mem_append_left _ hr, ?_, ?_⟩
    · simp [sealedTables, List.filter_append, List.filter_map, Function.comp_def, hne]
    · simp [sealedTables, List.filter_append, List.filter_map, Function.comp_def, hne]
  have hsealed : SealedAs env (sealedTables t revision manifest (env.sha256 manifest) u)
      ⟨revision, manifest, env.sha256 manifest⟩ parts := by
    refine ⟨⟨metadata, areas, targets, ?_⟩, rfl, ?_, ?_, hu.sound, hcount ▸ hu.few⟩
    · rw [hmanifest, hcount, hu.chunks]
    · have hold : t.chunks.filter (·.revision = revision) = [] := List.filter_eq_nil_iff.mpr fun row hrow => by
        obtain ⟨r, hr, heq⟩ := h.chunks row hrow
        simpa [← heq] using hfresh r hr
      rw [sealedTables, List.filter_append, hold, List.nil_append, ← hu.chunks]
      exact List.filter_eq_self.mpr (by simp)
    · have hold : t.members.filter (·.revision = revision) = [] := List.filter_eq_nil_iff.mpr fun row hrow => by
        obtain ⟨r, hr, heq⟩ := h.members row hrow
        simpa [← heq] using hfresh r hr
      rw [sealedTables, List.filter_append, hold, List.nil_append, List.filter_eq_self.mpr (by simp)]
      exact copied_members hu.members hu.ordinals revision
  refine ⟨⟨?_, ?_, ?_⟩, hgrow, hsealed⟩
  · intro row hrow
    rcases List.mem_append.mp hrow with hrow | hrow
    · obtain ⟨r, hr, heq⟩ := h.chunks row hrow
      exact ⟨r, List.mem_append_left _ hr, heq⟩
    · obtain ⟨chunk, -, rfl⟩ := List.mem_map.mp hrow
      exact ⟨_, List.mem_append_right _ List.mem_cons_self, rfl⟩
  · intro row hrow
    rcases List.mem_append.mp hrow with hrow | hrow
    · obtain ⟨r, hr, heq⟩ := h.members row hrow
      exact ⟨r, List.mem_append_left _ hr, heq⟩
    · obtain ⟨e, -, rfl⟩ := List.mem_map.mp hrow
      exact ⟨_, List.mem_append_right _ List.mem_cons_self, rfl⟩
  · intro r hr
    rcases List.mem_append.mp hr with hr | hr
    · obtain ⟨hdigest, hform⟩ := h.revisions r hr
      exact ⟨hdigest, hform.imp id fun ⟨parts', hparts⟩ => ⟨parts', hparts.grows hr hgrow⟩⟩
    · rw [List.mem_singleton.mp hr]
      exact ⟨rfl, .inr ⟨parts, hsealed⟩⟩

end

end Omapkg.Server.Scope
