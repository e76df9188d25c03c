import Omapkg.Server.ScopeChunks
/-!
# Members of a stored cohort revision

`src/src/lib/server/cohort-members.ts`: a revision's manifest has its members, or
the list of the chunks that have them. Pages and the stream of the members give
what was stored, whatever the sizes of the chunks.
-/

namespace Omapkg.Server.Scope

open Utf Fallible Arch
open Rebuild (UnitsLE)

/-! ## Tables -/

/-- A `CohortMemberChunk` of a manifest. -/
structure MemberChunk where
  index : Nat
  start : Nat
  count : Nat
  first : String
  last : String
  sha256 : String

/-- `schemaVersion` 1 or 2. -/
inductive CohortManifest (V : Type) where
  | inline (members : List V)
  | chunked (memberCount : Nat) (memberChunks : List MemberChunk)

/-- A row of `cohort_revisions`. -/
structure ScopeRecord where
  revision : Nat
  manifestJson : List Char
  manifestSha256 : String

/-- A row of `cohort_revision_chunks`. -/
structure RevisionChunk where
  revision : Nat
  index : Nat
  membersJson : List Char
  sha256 : String

/-- A row of `cohort_members`. -/
structure MemberRow where
  revision : Nat
  pkgbase : String
  ordinal : Option Nat

/-- What is kept of one cohort. -/
structure CohortTables where
  revisions : List ScopeRecord
  chunks : List RevisionChunk
  members : List MemberRow

/-- `JSON.parse` of the texts that are stored, and the properties of a member that are read. -/
structure Readers (V : Type) where
  sha256 : List Char → String
  manifest : List Char → CohortManifest V
  members : List Char → List V
  pkgbase : V → String

/-! ## Reads -/

section
variable {V : Type} (env : Readers V) (t : CohortTables)

def readCohortManifest (r : ScopeRecord) : Except PolicyError (CohortManifest V) :=
  if env.sha256 r.manifestJson ≠ r.manifestSha256 then reject "Cohort manifest integrity check failed." 409
  else .ok (env.manifest r.manifestJson)

def verifiedChunk (row : Option RevisionChunk) (chunk : MemberChunk) : Except PolicyError (List V) :=
  match row with
  | none => reject "Cohort member chunk integrity check failed." 409
  | some row =>
    if row.sha256 ≠ chunk.sha256 ∨ env.sha256 row.membersJson ≠ chunk.sha256 then
      reject "Cohort member chunk integrity check failed." 409
    else
      let values := env.members row.membersJson
      if values.length ≠ chunk.count ∨ values.head?.map env.pkgbase ≠ some chunk.first ∨
          values.getLast?.map env.pkgbase ≠ some chunk.last then
        reject "Cohort member chunk coverage check failed." 409
      else .ok values

def chunkRow (revision index : Nat) : Option RevisionChunk :=
  t.chunks.find? fun row => row.revision = revision ∧ row.index = index

/-- The part of a chunk in a page that ends before `stop`. -/
def chunkPart (r : ScopeRecord) (start stop : Nat) (chunk : MemberChunk) : Except PolicyError (List V) := do
  let values ← verifiedChunk env (chunkRow t r.revision chunk.index) chunk
  pure ((values.take (min chunk.count (stop - chunk.start))).drop (start - chunk.start))

/-- The root commits every chunk. A page never hydrates unrelated catalog members. -/
def cohortMembers (r : ScopeRecord) (start limit : Nat) : Except PolicyError (List V) :=
  if start > maxSafeInteger ∨ limit < 1 ∨ limit > 512 then reject "Invalid cohort member page." 400
  else do
    match ← readCohortManifest env r with
    | .inline members => pure ((members.drop start).take limit)
    | .chunked memberCount chunks =>
      let stop := min (start + limit) memberCount
      let parts ← (chunks.filter fun item => item.start < stop && start < item.start + item.count).mapM
        (chunkPart env t r start stop)
      if parts.flatten.length ≠ stop - start then reject "Cohort membership is incomplete." 409 else pure parts.flatten

/-- The count, the last name and what was yielded. -/
structure Stream (V : Type) where
  count : Nat
  last : String
  yielded : List V

def streamMember (s : Stream V) (member : V) : Except PolicyError (Stream V) :=
  if UnitsLE (env.pkgbase member) s.last then reject "Cohort members are duplicated or unordered." 409
  else .ok ⟨s.count + 1, env.pkgbase member, s.yielded ++ [member]⟩

def streamChunk (s : Stream V) (pair : RevisionChunk × MemberChunk) : Except PolicyError (Stream V) :=
  if pair.1.index ≠ pair.2.index ∨ pair.2.start ≠ s.count then reject "Cohort chunk order is invalid." 409
  else do
    let values ← verifiedChunk env (some pair.1) pair.2
    values.foldlM (streamMember env) s

/-- `ORDER BY chunk_index LIMIT 16`, from an offset. -/
def batchRows (r : ScopeRecord) (offset : Nat) : List RevisionChunk :=
  ((t.chunks.filter fun row => row.revision = r.revision ∧ offset ≤ row.index).insertionSort fun a b => a.index ≤ b.index).take 16

def streamBatch (r : ScopeRecord) (chunks : List MemberChunk) (s : Stream V) (offset : Nat) : Except PolicyError (Stream V) :=
  if (batchRows t r offset).length ≠ min 16 (chunks.length - offset) then reject "Cohort member chunks are missing." 409
  else ((batchRows t r offset).zip (chunks.drop offset)).foldlM (streamChunk env) s

/-- What `cohortMemberStream` yields to a reader that drains it. -/
def cohortMemberStream (r : ScopeRecord) : Except PolicyError (List V) := do
  match ← readCohortManifest env r with
  | .inline members => pure (members.insertionSort fun a b => UnitsLE (env.pkgbase a) (env.pkgbase b))
  | .chunked memberCount chunks =>
    let s ← ((List.range ((chunks.length + 15) / 16)).map (16 * ·)).foldlM (streamBatch env t r chunks) ⟨0, "", []⟩
    if s.count ≠ memberCount then reject "Cohort member count is incomplete." 409 else pure s.yielded

/-! ## What is stored -/

/-- Chunks from an index and a start on, with the rows that have their members. -/
inductive ChunksHold (revision : Nat) : Nat → Nat → List (List V) → List MemberChunk → Prop
  | nil (index start : Nat) : ChunksHold revision index start [] []
  | cons {index start : Nat} {values : List V} {parts : List (List V)} {chunk : MemberChunk} {chunks : List MemberChunk}
      {row : RevisionChunk} (hrow : row ∈ t.chunks) (hrevision : row.revision = revision) (hindex : row.index = index)
      (hdigest : env.sha256 row.membersJson = row.sha256) (hvalues : env.members row.membersJson = values) (hne : values ≠ [])
      (hshort : values.length ≤ 100)
      (hchunk : chunk = ⟨index, start, values.length, (values.head?.map env.pkgbase).getD "",
        (values.getLast?.map env.pkgbase).getD "", row.sha256⟩)
      (hrest : ChunksHold revision (index + 1) (start + values.length) parts chunks) :
      ChunksHold revision index start (values :: parts) (chunk :: chunks)

/-- Member rows of a revision, with their ordinals where it is in chunks. -/
def memberRows (revision : Nat) (members : List V) (ordinals : Bool) : List MemberRow :=
  members.mapIdx fun i m => ⟨revision, env.pkgbase m, if ordinals then some i else none⟩

/-- A revision is stored in chunks. -/
structure Chunked (r : ScopeRecord) (members : List V) (chunks : List MemberChunk) (parts : List (List V)) : Prop where
  manifest : env.manifest r.manifestJson = .chunked members.length chunks
  flatten : parts.flatten = members
  chunks : ChunksHold env t r.revision 0 0 parts chunks
  once : ((t.chunks.filter (·.revision = r.revision)).map (·.index)).Perm (List.range parts.length)

/-- A revision has these members. -/
structure Stored (r : ScopeRecord) (members : List V) : Prop where
  intact : env.sha256 r.manifestJson = r.manifestSha256
  ordered : (members.map env.pkgbase).Pairwise fun a b => ¬UnitsLE b a
  named : ∀ m ∈ members, isPackageName (env.pkgbase m).toList = true
  few : members.length ≤ 100000
  form : (env.manifest r.manifestJson = .inline members ∧
      (t.members.filter (·.revision = r.revision)).Perm (memberRows env r.revision members false)) ∨
    (∃ chunks parts, Chunked env t r members chunks parts) ∧
      (t.members.filter (·.revision = r.revision)).Perm (memberRows env r.revision members true)

end

/-! ## Pages -/

section
variable {V : Type} {env : Readers V} {t : CohortTables} {r : ScopeRecord} {members : List V}

/-- A chunk's row is the one of its index. -/
theorem chunkRow_eq {revision : Nat} (honce : ((t.chunks.filter (·.revision = revision)).map (·.index)).Nodup) {row : RevisionChunk}
    (hrow : row ∈ t.chunks) (hrevision : row.revision = revision) : chunkRow t revision row.index = some row := by
  have hmem {row : RevisionChunk} (h : row ∈ t.chunks) (hr : row.revision = revision) :
      row ∈ t.chunks.filter (·.revision = revision) :=
    List.mem_filter.mpr ⟨h, decide_eq_true hr⟩
  cases hfind : chunkRow t revision row.index with
  | none =>
    have hno := List.find?_eq_none.mp hfind row hrow
    simp [hrevision] at hno
  | some row' =>
    have hsame : row'.revision = revision ∧ row'.index = row.index := by simpa using List.find?_some hfind
    exact congrArg some (List.inj_on_of_nodup_map honce (hmem (List.mem_of_find?_eq_some hfind) hsame.1) (hmem hrow hrevision) hsame.2)

theorem verifiedChunk_ok {row : RevisionChunk} {values : List V} (hdigest : env.sha256 row.membersJson = row.sha256)
    (hvalues : env.members row.membersJson = values) (hne : values ≠ []) (index start : Nat) :
    verifiedChunk env (some row) ⟨index, start, values.length, (values.head?.map env.pkgbase).getD "",
      (values.getLast?.map env.pkgbase).getD "", row.sha256⟩ = .ok values := by
  obtain ⟨first, hfirst⟩ := Option.ne_none_iff_exists'.mp (mt List.head?_eq_none_iff.mp hne)
  obtain ⟨last, hlast⟩ := Option.ne_none_iff_exists'.mp (mt List.getLast?_eq_none_iff.mp hne)
  simp [verifiedChunk, hdigest, hvalues, hfirst, hlast]

theorem slice_append (values rest : List V) (start a b : Nat) :
    ((values ++ rest).take (b - start)).drop (a - start) = (values.take (b - start)).drop (a - start) ++
      (rest.take (b - (start + values.length))).drop (a - (start + values.length)) := by
  rw [List.take_append, List.drop_append, List.length_take, Nat.sub_sub b]
  rcases Nat.le_total values.length (b - start) with h | h
  · rw [Nat.min_eq_right h, Nat.sub_sub]
  · rw [Nat.sub_eq_zero_of_le (show b ≤ start + values.length by omega)]
    simp

/-- The part of a list of chunks that a page takes. -/
theorem ChunksHold.slice {index start : Nat} {parts : List (List V)} {chunks : List MemberChunk}
    (h : ChunksHold env t r.revision index start parts chunks)
    (honce : ((t.chunks.filter (·.revision = r.revision)).map (·.index)).Nodup) (a b : Nat) :
    ∃ slices, (chunks.filter fun item => item.start < b && a < item.start + item.count).mapM (chunkPart env t r a b) = .ok slices ∧
      slices.flatten = (parts.flatten.take (b - start)).drop (a - start) := by
  induction h with
  | nil index start => exact ⟨[], rfl, by simp⟩
  | @cons index start values parts chunk chunks row hrow hrevision hindex hdigest hvalues hne hshort hchunk hrest ih =>
    obtain ⟨slices, hslices, hflatten⟩ := ih
    subst hchunk
    rw [List.flatten_cons, slice_append, ← hflatten]
    by_cases hpick : start < b ∧ a < start + values.length
    · rw [List.filter_cons_of_pos (by simpa using hpick), List.mapM_cons]
      have hpart : chunkPart env t r a b ⟨index, start, values.length, (values.head?.map env.pkgbase).getD "",
          (values.getLast?.map env.pkgbase).getD "", row.sha256⟩ = .ok ((values.take (b - start)).drop (a - start)) := by
        have hfound : chunkRow t r.revision index = some row := hindex ▸ chunkRow_eq honce hrow hrevision
        have htake : values.take (min values.length (b - start)) = values.take (b - start) := by
          rcases Nat.le_total values.length (b - start) with hle | hle
          · rw [Nat.min_eq_left hle, List.take_length, List.take_of_length_le hle]
          · rw [Nat.min_eq_right hle]
        rw [chunkPart, hfound, verifiedChunk_ok hdigest hvalues hne, ← htake]
        rfl
      rw [hpart]
      exact ⟨_ :: slices, by rw [hslices]; rfl, rfl⟩
    · rw [List.filter_cons_of_neg (by simpa using hpick)]
      refine ⟨slices, hslices, ?_⟩
      have hnone : (values.take (b - start)).drop (a - start) = [] := by
        refine List.drop_eq_nil_of_le ?_
        rw [List.length_take]
        omega
      rw [hnone, List.nil_append]

theorem Stored.page_ok (h : Stored env t r members) {start limit : Nat} (hstart : start ≤ maxSafeInteger) (hlimit : 1 ≤ limit)
    (hshort : limit ≤ 512) : cohortMembers env t r start limit = .ok ((members.drop start).take limit) := by
  have hread : readCohortManifest env r = .ok (env.manifest r.manifestJson) := if_neg (not_not.mpr h.intact)
  rw [cohortMembers, if_neg (by omega), hread]
  rcases h.form with ⟨hinline, -⟩ | ⟨⟨chunks, parts, hchunked⟩, -⟩
  · change (match env.manifest r.manifestJson with | .inline members => _ | .chunked _ _ => _) = _
    rw [hinline]
    rfl
  · change (match env.manifest r.manifestJson with | .inline members => _ | .chunked _ _ => _) = _
    rw [hchunked.manifest]
    have honce := hchunked.once.nodup_iff.mpr List.nodup_range
    obtain ⟨slices, hslices, hflatten⟩ := hchunked.chunks.slice honce start (min (start + limit) members.length)
    rw [hchunked.flatten, Nat.sub_zero, Nat.sub_zero] at hflatten
    have hpage : slices.flatten = (members.drop start).take limit := by
      rw [hflatten, List.take_drop, ← List.take_eq_take_min]
    dsimp only
    rw [hslices]
    have hlength : slices.flatten.length = min (start + limit) members.length - start := by
      rw [hpage, List.length_take, List.length_drop]
      omega
    refine (if_neg (not_not.mpr hlength)).trans ?_
    rw [hpage]
    rfl

/-! ## The stream -/

/-- Rows of a revision in the order of their indices. -/
def revisionRows (t : CohortTables) (revision : Nat) : List RevisionChunk :=
  (t.chunks.filter (·.revision = revision)).insertionSort fun a b => a.index ≤ b.index

theorem byIndex_pairwise (rows : List RevisionChunk) :
    (rows.insertionSort fun a b => a.index ≤ b.index).Pairwise fun a b => a.index ≤ b.index := by
  have htotal : Std.Total fun a b : RevisionChunk => a.index ≤ b.index := ⟨fun a b => Nat.le_total _ _⟩
  have htrans : IsTrans RevisionChunk fun a b => a.index ≤ b.index := ⟨fun a b c => Nat.le_trans⟩
  exact List.pairwise_insertionSort _ rows

theorem revisionRows_index {revision n : Nat} (h : ((t.chunks.filter (·.revision = revision)).map (·.index)).Perm (List.range n)) :
    (revisionRows t revision).map (·.index) = List.range n := by
  have hperm : ((revisionRows t revision).map (·.index)).Perm (List.range n) := ((List.perm_insertionSort _ _).map _).trans h
  refine hperm.eq_of_pairwise (fun a b _ _ hab hba => Nat.le_antisymm hab hba) (List.pairwise_map.mpr (byIndex_pairwise _)) ?_
  exact List.pairwise_lt_range.imp Nat.le_of_lt

theorem batchRows_eq {n : Nat} (h : ((t.chunks.filter (·.revision = r.revision)).map (·.index)).Perm (List.range n)) (offset : Nat) :
    batchRows t r offset = ((revisionRows t r.revision).drop offset).take 16 := by
  have hindex := revisionRows_index h
  have hnodup : ((t.chunks.filter (·.revision = r.revision)).map (·.index)).Nodup := h.nodup_iff.mpr List.nodup_range
  have hbefore : ((revisionRows t r.revision).take offset).filter (fun row => decide (offset ≤ row.index)) = [] := by
    refine List.filter_eq_nil_iff.mpr fun row hrow => ?_
    have hmem : row.index ∈ ((revisionRows t r.revision).map (·.index)).take offset := by
      rw [← List.map_take]
      exact List.mem_map_of_mem hrow
    rw [hindex, List.take_range, List.mem_range] at hmem
    simp only [decide_eq_true_eq]
    omega
  have hafter : ((revisionRows t r.revision).drop offset).filter (fun row => decide (offset ≤ row.index)) =
      (revisionRows t r.revision).drop offset := by
    refine List.filter_eq_self.mpr fun row hrow => decide_eq_true ?_
    have hmem : row.index ∈ ((revisionRows t r.revision).map (·.index)).drop offset := by
      rw [← List.map_drop]
      exact List.mem_map_of_mem hrow
    rw [hindex] at hmem
    obtain ⟨i, hi, heq⟩ := List.mem_drop_iff_getElem.mp hmem
    rw [List.getElem_range] at heq
    omega
  have hfilter : (revisionRows t r.revision).filter (fun row => decide (offset ≤ row.index)) =
      (revisionRows t r.revision).drop offset := by
    conv_lhs => rw [← List.take_append_drop offset (revisionRows t r.revision), List.filter_append, hbefore, hafter, List.nil_append]
  have hsub : ((t.chunks.filter fun row => row.revision = r.revision ∧ offset ≤ row.index)).Perm
      ((revisionRows t r.revision).drop offset) := by
    rw [← hfilter]
    have hsplit : (t.chunks.filter fun row => row.revision = r.revision ∧ offset ≤ row.index) =
        (t.chunks.filter (·.revision = r.revision)).filter fun row => decide (offset ≤ row.index) := by
      rw [List.filter_filter]
      exact List.filter_congr fun row _ => by rw [Bool.decide_and, Bool.and_comm]
    rw [hsplit]
    exact ((List.perm_insertionSort _ _).symm).filter _
  rw [batchRows]
  congr 1
  refine (((List.perm_insertionSort _ _).trans hsub).eq_of_pairwise ?_ (byIndex_pairwise _)
    ((byIndex_pairwise _).sublist (List.drop_sublist _ _)))
  intro a b ha hb hab hba
  -- two rows of one index are one row
  have hmem {row : RevisionChunk} (hrow : row ∈ (revisionRows t r.revision).drop offset) :
      row ∈ t.chunks.filter (·.revision = r.revision) := (List.perm_insertionSort _ _).mem_iff.mp (List.mem_of_mem_drop hrow)
  exact List.inj_on_of_nodup_map hnodup (hmem (((List.perm_insertionSort _ _).trans hsub).mem_iff.mp ha)) (hmem hb)
    (Nat.le_antisymm hab hba)

/-- Names in order, all after `last`. -/
def Rises (env : Readers V) (last : String) (values : List V) : Prop :=
  (values.map env.pkgbase).Pairwise (fun a b => ¬UnitsLE b a) ∧ ∀ m ∈ values, ¬UnitsLE (env.pkgbase m) last

def lastName (env : Readers V) (last : String) (values : List V) : String := (values.getLast?.map env.pkgbase).getD last

theorem Rises.append {last : String} {values rest : List V} (h : Rises env last (values ++ rest)) :
    Rises env last values ∧ Rises env (lastName env last values) rest := by
  obtain ⟨hpairs, hlast⟩ := h
  rw [List.map_append, List.pairwise_append] at hpairs
  refine ⟨⟨hpairs.1, fun m hm => hlast m (List.mem_append_left _ hm)⟩, hpairs.2.1, fun m hm => ?_⟩
  cases hend : values.getLast? with
  | none =>
    rw [lastName, hend]
    exact hlast m (List.mem_append_right _ hm)
  | some v =>
    rw [lastName, hend]
    exact hpairs.2.2 _ (List.mem_map_of_mem (List.mem_of_getLast? hend)) _ (List.mem_map_of_mem hm)

theorem streamMembers_ok {values : List V} {s : Stream V} (h : Rises env s.last values) :
    values.foldlM (streamMember env) s = .ok ⟨s.count + values.length, lastName env s.last values, s.yielded ++ values⟩ := by
  induction values generalizing s with
  | nil => simp [lastName, pure, Except.pure]
  | cons v values ih =>
    obtain ⟨⟨-, hv⟩, hrest⟩ := (show Rises env s.last ([v] ++ values) from h).append
    have hnext : Rises env (env.pkgbase v) values := hrest
    rw [List.foldlM_cons, streamMember, if_neg (hv v List.mem_cons_self)]
    refine (ih (s := ⟨s.count + 1, env.pkgbase v, s.yielded ++ [v]⟩) hnext).trans ?_
    have hlast : lastName env (env.pkgbase v) values = lastName env s.last (v :: values) := by
      cases values with
      | nil => rfl
      | cons w values =>
        obtain ⟨x, hx⟩ := Option.ne_none_iff_exists'.mp (mt List.getLast?_eq_none_iff.mp (List.cons_ne_nil w values))
        rw [lastName, lastName, List.getLast?_cons_cons, hx]
        rfl
    rw [hlast, List.length_cons, List.append_assoc, List.singleton_append, Nat.add_assoc, Nat.add_comm 1]

theorem ChunksHold.stream {index start : Nat} {parts : List (List V)} {chunks : List MemberChunk}
    (h : ChunksHold env t r.revision index start parts chunks)
    (honce : ((t.chunks.filter (·.revision = r.revision)).map (·.index)).Nodup) {rows : List RevisionChunk}
    (hrows : rows.map (·.index) = List.range' index parts.length)
    (hmem : ∀ row ∈ rows, row ∈ t.chunks ∧ row.revision = r.revision)
    {last : String} {out : List V} (hrises : Rises env last parts.flatten) :
    ∃ last', (rows.zip chunks).foldlM (streamChunk env) ⟨start, last, out⟩ =
      .ok ⟨start + parts.flatten.length, last', out ++ parts.flatten⟩ := by
  induction h generalizing rows last out with
  | nil index start => exact ⟨last, by simp [pure, Except.pure]⟩
  | @cons index start values parts chunk chunks row hrow hrevision hindex hdigest hvalues hne hshort hchunk hrest ih =>
    subst hchunk
    cases rows with
    | nil => simp at hrows
    | cons row' rows =>
      rw [List.length_cons, List.range'_succ, List.map_cons, List.cons.injEq] at hrows
      obtain ⟨⟨hrow', hrevision'⟩, hmem⟩ := List.forall_mem_cons.mp hmem
      have hsame : row' = row := by
        have h₁ := chunkRow_eq honce hrow hrevision
        have h₂ := chunkRow_eq honce hrow' hrevision'
        rw [hindex] at h₁
        rw [hrows.1, h₁] at h₂
        exact (Option.some.inj h₂).symm
      subst hsame
      obtain ⟨hfirst, hnext⟩ := Rises.append hrises
      obtain ⟨last', hlast⟩ : ∃ last', (rows.zip chunks).foldlM (streamChunk env)
          ⟨start + values.length, lastName env last values, out ++ values⟩ =
          .ok ⟨start + values.length + parts.flatten.length, last', out ++ values ++ parts.flatten⟩ := ih hrows.2 hmem hnext
      refine ⟨last', ?_⟩
      rw [List.zip_cons_cons, List.foldlM_cons, streamChunk, if_neg (by simp [hindex]), verifiedChunk_ok hdigest hvalues hne]
      have hvalue := streamMembers_ok (s := ⟨start, last, out⟩) hfirst
      refine (bind_ok.mpr ⟨_, hvalue, hlast⟩).trans ?_
      rw [List.flatten_cons, List.length_append, List.append_assoc, Nat.add_assoc]

theorem zip_take {α β : Type} (n : Nat) (as : List α) (bs : List β) : (as.take n).zip bs = (as.zip bs).take n := by
  induction n generalizing as bs with
  | zero => simp
  | succ n ih =>
    cases as with
    | nil => simp
    | cons a as =>
      cases bs with
      | nil => simp
      | cons b bs => simp [ih]

theorem ChunksHold.length {revision index start : Nat} {parts : List (List V)} {chunks : List MemberChunk}
    (h : ChunksHold env t revision index start parts chunks) : chunks.length = parts.length := by
  induction h with
  | nil => rfl
  | cons _ _ _ _ _ _ _ _ _ ih => rw [List.length_cons, List.length_cons, ih]

theorem foldlM_batches {α : Type} {f : Stream V → α → Except PolicyError (Stream V)}
    {g : Stream V → Nat → Except PolicyError (Stream V)} {l : List α}
    (hg : ∀ s o, o < l.length → g s o = ((l.drop o).take 16).foldlM f s) {n : Nat} (hn : 16 * n < l.length + 16)
    (s : Stream V) :
    ((List.range n).map (16 * ·)).foldlM g s = (l.take (16 * n)).foldlM f s := by
  induction n with
  | zero => simp
  | succ n ih =>
    rw [List.range_succ, List.map_append, List.foldlM_append, ih (by omega), Nat.mul_succ, List.take_add, List.foldlM_append]
    refine congrArg _ (funext fun s => ?_)
    rw [List.map_singleton, List.foldlM_cons, hg s _ (by omega)]
    simp

/-- A reader of the stream gets the whole list. -/
theorem Stored.stream_ok (h : Stored env t r members) : cohortMemberStream env t r = .ok members := by
  have hread : readCohortManifest env r = .ok (env.manifest r.manifestJson) := if_neg (not_not.mpr h.intact)
  rw [cohortMemberStream, hread]
  change (match env.manifest r.manifestJson with | .inline members => _ | .chunked _ _ => _) = _
  rcases h.form with ⟨hinline, -⟩ | ⟨⟨chunks, parts, hchunked⟩, -⟩
  · rw [hinline]
    refine congrArg Except.ok (List.Pairwise.insertionSort_eq ?_)
    refine (List.pairwise_map.mp h.ordered).imp fun {a b} hab => ?_
    exact (le_total (α := List Nat) _ _).resolve_right hab
  · rw [hchunked.manifest]
    have hlength := hchunked.chunks.length
    have hindex := revisionRows_index hchunked.once
    have hrows : (revisionRows t r.revision).length = parts.length := by
      have hcount := congrArg List.length hindex
      rwa [List.length_map, List.length_range] at hcount
    have hzip : ((revisionRows t r.revision).zip chunks).length = parts.length := by
      rw [List.length_zip, hrows, hlength, Nat.min_self]
    have hbatch : ∀ s o, o < ((revisionRows t r.revision).zip chunks).length → streamBatch env t r chunks s o =
        ((((revisionRows t r.revision).zip chunks).drop o).take 16).foldlM (streamChunk env) s := by
      intro s o ho
      rw [streamBatch, batchRows_eq hchunked.once, if_neg (by simp [hrows, hlength]), zip_take,
        List.zip_eq_zipWith, List.zip_eq_zipWith, List.drop_zipWith]
    have hrises : Rises env "" parts.flatten := by
      rw [hchunked.flatten]
      exact ⟨h.ordered, fun m hm => not_unitsLE_empty (h.named m hm)⟩
    have hmem : ∀ row ∈ revisionRows t r.revision, row ∈ t.chunks ∧ row.revision = r.revision := by
      intro row hrow
      have hmem := (List.perm_insertionSort _ _).mem_iff.mp hrow
      simpa using hmem
    obtain ⟨last, hlast⟩ : ∃ last, ((revisionRows t r.revision).zip chunks).foldlM (streamChunk env) ⟨0, "", []⟩ =
        .ok ⟨0 + parts.flatten.length, last, [] ++ parts.flatten⟩ :=
      hchunked.chunks.stream (hchunked.once.nodup_iff.mpr List.nodup_range) (hindex.trans List.range_eq_range') hmem hrises
    have hall := foldlM_batches hbatch (n := (chunks.length + 15) / 16) (by omega) ⟨0, "", []⟩
    rw [List.take_of_length_le (by omega), hlast] at hall
    dsimp only
    rw [hall]
    rw [hchunked.flatten]
    refine (if_neg (not_not.mpr ?_)).trans ?_
    · exact Nat.zero_add _
    · rfl
end
end Omapkg.Server.Scope
