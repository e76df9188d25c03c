import Omapkg.Server.CohortMembers
/-!
# Changes between cohort revisions

`src/src/lib/server/cohort-changelogs.ts`: what changed from the members of one
revision to those of the next is computed page by page from the index of names, as
a merge of the two streams, and in memory for the facts of a changelog.
-/

namespace Omapkg.Server.Scope

open Utf Fallible Arch
open Rebuild (UnitsLE)

/-! ## Changes -/

inductive ChangeKind where
  | added | removed | changed | unchanged
  deriving DecidableEq

structure CohortChange where
  pkgbase : String
  kind : ChangeKind
  oldVersion : Option String
  newVersion : Option String
  oldRepository : Option String
  newRepository : Option String
  oldRecipeSha256 : Option String
  newRecipeSha256 : Option String
  architectures : List String
  cause : String
  reason : String

/-- What a change tells of a member; `json` is its `canonicalJson`. -/
structure ChangeReaders (V : Type) extends Readers V where
  fullVersion : V → Option String
  manifestSha256 : V → Option String
  collection : V → String
  architectures : V → List String
  cause : V → String
  reason : V → String
  json : V → List Char

section
variable {V : Type} (env : ChangeReaders V) (t : CohortTables)

def changeKind : Option V → Option V → ChangeKind
  | none, _ => .added
  | some _, none => .removed
  | some before, some after => if env.json before = env.json after then .unchanged else .changed

/-- Of a package that one of the revisions has. -/
def memberChange (pkgbase : String) (before after : Option V) : CohortChange where
  pkgbase := pkgbase
  kind := changeKind env before after
  oldVersion := before.bind env.fullVersion
  newVersion := after.bind env.fullVersion
  oldRepository := before.map env.collection
  newRepository := after.map env.collection
  oldRecipeSha256 := before.bind env.manifestSha256
  newRecipeSha256 := after.bind env.manifestSha256
  architectures := Rebuild.sorted ((before.map env.architectures).getD [] ++ (after.map env.architectures).getD []).eraseDups
  cause := ((after.or before).map env.cause).getD ""
  reason := ((after.or before).map env.reason).getD ""

/-! ## Reads -/

def previousCohortScope (r : ScopeRecord) : Except PolicyError (Option ScopeRecord) :=
  if r.revision = 1 then .ok none
  else match t.revisions.find? (·.revision = r.revision - 1) with
    | none => reject "Previous cohort revision is missing." 409
    | some previous => do
      let _ ← readCohortManifest env.toReaders previous
      pure (some previous)

/-- The members of a chunk with their ordinals. -/
def hydrate (r : ScopeRecord) (chunk : MemberChunk) : Except PolicyError (List (V × Nat)) := do
  let members ← cohortMembers env.toReaders t r chunk.start chunk.count
  pure (members.zipIdx chunk.start)

/-- The member of an index row, of those that were hydrated. -/
def rowMember (hydrated : List (V × Nat)) (row : MemberRow) : Except PolicyError V :=
  match hydrated.reverse.find? fun entry => row.ordinal = some entry.2 with
  | none => reject "Cohort name index integrity check failed." 409
  | some entry =>
    if env.pkgbase entry.1 ≠ row.pkgbase then reject "Cohort name index integrity check failed." 409 else .ok entry.1

def namedCohortMembers (r : ScopeRecord) (names : List String) : Except PolicyError (List V) := do
  match ← readCohortManifest env.toReaders r with
  | .inline members => pure (members.filter fun m => names.contains (env.pkgbase m))
  | .chunked _ chunks =>
    let rows := t.members.filter fun row => row.revision = r.revision ∧ names.contains row.pkgbase = true
    let hydrated ← (chunks.filter fun chunk => rows.any fun row =>
      chunk.start ≤ row.ordinal.getD 0 && row.ordinal.getD 0 < chunk.start + chunk.count).mapM (hydrate env t r)
    rows.mapM (rowMember env hydrated.flatten)

/-- What a `Map` of members by name has for a name. -/
def byName? (members : List V) (name : String) : Option V := (members.filter (env.pkgbase · = name)).getLast?

/-- `SELECT DISTINCT pkgbase`, of two revisions. -/
def indexNames (revision previous : Nat) : List String :=
  ((t.members.filter fun row => row.revision = revision ∨ row.revision = previous).map (·.pkgbase)).eraseDups

/-- `pkgbase>? ORDER BY pkgbase LIMIT 26`. -/
def pageNames (revision previous : Nat) (after : String) : List String :=
  (Rebuild.sorted ((indexNames t revision previous).filter fun name => ¬UnitsLE name after)).take 26

def cohortChangePage (r : ScopeRecord) (after : String) : Except PolicyError (List CohortChange × Option String) :=
  if after ≠ "" ∧ ¬isPackageName after.toList = true then reject "Invalid package change cursor." 400
  else do
    let previous ← previousCohortScope env t r
    let rows := pageNames t r.revision ((previous.map (·.revision)).getD 0) after
    let names := rows.take 25
    let old ← match previous with
      | none => pure []
      | some previous => namedCohortMembers env t previous names
    let new ← namedCohortMembers env t r names
    let changes ← names.mapM fun name =>
      if byName? env old name = none ∧ byName? env new name = none then
        reject "Cohort change index integrity check failed." 409
      else .ok (memberChange env name (byName? env old name) (byName? env new name))
    pure (changes, if rows.length > 25 then names.getLast? else none)

/-- What a reader that follows the cursor gets. -/
inductive Follows (r : ScopeRecord) : String → List CohortChange → Prop
  | last {after : String} {changes : List CohortChange} (h : cohortChangePage env t r after = .ok (changes, none)) :
      Follows r after changes
  | next {after cursor : String} {changes rest : List CohortChange}
      (h : cohortChangePage env t r after = .ok (changes, some cursor)) (hrest : Follows r cursor rest) :
      Follows r after (changes ++ rest)

/-- The loop over the heads of two streams. -/
def changeMerge : List V → List V → List CohortChange
  | [], [] => []
  | old :: olds, [] => memberChange env (env.pkgbase old) (some old) none :: changeMerge olds []
  | [], new :: news => memberChange env (env.pkgbase new) none (some new) :: changeMerge [] news
  | old :: olds, new :: news =>
    if env.pkgbase old = env.pkgbase new then
      memberChange env (env.pkgbase new) (some old) (some new) :: changeMerge olds news
    else if ¬UnitsLE (env.pkgbase new) (env.pkgbase old) then
      memberChange env (env.pkgbase old) (some old) none :: changeMerge olds (new :: news)
    else memberChange env (env.pkgbase new) none (some new) :: changeMerge (old :: olds) news
termination_by olds news => olds.length + news.length

/-- What `cohortChangeStream` yields to a reader that drains it. -/
def cohortChangeStream (r : ScopeRecord) : Except PolicyError (List CohortChange) := do
  let previous ← previousCohortScope env t r
  let old ← match previous with
    | none => pure []
    | some previous => cohortMemberStream env.toReaders t previous
  let new ← cohortMemberStream env.toReaders t r
  pure (changeMerge env old new)

/-- The `changes` of facts: a list, or a count for revisions in chunks. -/
inductive FactChanges where
  | list (changes : List CohortChange)
  | counted (count : Nat)

/-- `changes` of `generateCohortFacts`. -/
def factChanges (r : ScopeRecord) : Except PolicyError FactChanges := do
  let manifest ← readCohortManifest env.toReaders r
  let previous ← previousCohortScope env t r
  let oldManifest ← match previous with
    | none => pure none
    | some previous => some <$> readCohortManifest env.toReaders previous
  match manifest, oldManifest.getD (.inline []) with
  | .inline new, .inline old =>
    let names := Rebuild.sorted ((old.map env.pkgbase).eraseDups ++ (new.map env.pkgbase).eraseDups).eraseDups
    pure (.list (names.map fun name => memberChange env name (byName? env old name) (byName? env new name)))
  | _, _ => pure (.counted (indexNames t r.revision ((previous.map (·.revision)).getD 0)).length)

end

section
variable {V : Type} {env : ChangeReaders V} {t : CohortTables} {r : ScopeRecord} {members old new : List V}

/-! ## Names -/

def UnitsLT (a b : String) : Prop := ¬UnitsLE b a

theorem unitsLE_total (a b : String) : UnitsLE a b ∨ UnitsLE b a := le_total (α := List Nat) _ _

theorem unitsLE_trans {a b c : String} (h : UnitsLE a b) (h' : UnitsLE b c) : UnitsLE a c := le_trans (α := List Nat) h h'

theorem UnitsLT.le {a b : String} (h : UnitsLT a b) : UnitsLE a b := (unitsLE_total a b).resolve_right h

theorem UnitsLT.trans {a b c : String} (h : UnitsLT a b) (h' : UnitsLT b c) : UnitsLT a c := fun hle => h (unitsLE_trans h'.le hle)

theorem UnitsLT.ne {a b : String} (h : UnitsLT a b) : a ≠ b := fun heq => h (heq ▸ le_refl (α := List Nat) _)

theorem unitsLT_of_ne {a b : String} (hne : a ≠ b) (h : UnitsLE a b) : UnitsLT a b := fun hle => hne (h.antisymm hle)

/-- Rising lists of the same names are the same. -/
theorem rising_ext {l l' : List String} (h : l.Pairwise UnitsLT) (h' : l'.Pairwise UnitsLT) (hmem : ∀ x, x ∈ l ↔ x ∈ l') :
    l = l' := by
  have hperm : l.Perm l' := (List.perm_ext_iff_of_nodup (h.imp UnitsLT.ne) (h'.imp UnitsLT.ne)).mpr hmem
  exact hperm.eq_of_pairwise (fun a b _ _ hab hba => absurd (UnitsLT.le hba) hab) h h'

theorem nodup_eraseDups (l : List String) : l.eraseDups.Nodup := by
  induction hn : l.length using Nat.strongRecOn generalizing l with
  | ind n ih =>
    cases l with
    | nil => exact .nil
    | cons a l =>
      have hshort : (l.filter fun b => !b == a).length < n := by
        rw [← hn, List.length_cons]
        exact Nat.lt_succ_of_le (List.length_filter_le _ _)
      rw [List.eraseDups_cons, List.nodup_cons]
      exact ⟨by simp, ih _ hshort _ rfl⟩

theorem sorted_rising {l : List String} (h : l.Nodup) : (Rebuild.sorted l).Pairwise UnitsLT := by
  have hnodup := (Rebuild.sorted_perm l).nodup_iff.mpr h
  exact (Rebuild.sorted_pairwise l).imp₂ (fun _ _ hle hne => unitsLT_of_ne hne hle) hnodup

/-- The names of two revisions, each once and in order. -/
def unionNames (env : ChangeReaders V) (old new : List V) : List String :=
  Rebuild.sorted (old.map env.pkgbase ++ new.map env.pkgbase).eraseDups

theorem unionNames_rising : (unionNames env old new).Pairwise UnitsLT := sorted_rising (nodup_eraseDups _)

theorem mem_unionNames {name : String} :
    name ∈ unionNames env old new ↔ name ∈ old.map env.pkgbase ∨ name ∈ new.map env.pkgbase := by
  rw [unionNames, Rebuild.mem_sorted, List.mem_eraseDups, List.mem_append]

theorem unionNames_eq {l : List String} (h : l.Pairwise UnitsLT)
    (hmem : ∀ x, x ∈ l ↔ x ∈ old.map env.pkgbase ∨ x ∈ new.map env.pkgbase) : unionNames env old new = l :=
  rising_ext unionNames_rising h fun x => mem_unionNames.trans (hmem x).symm

/-! ## Members by name -/

/-- No two members of one name. -/
def OneName (env : ChangeReaders V) (l : List V) : Prop := ∀ m ∈ l, ∀ m' ∈ l, env.pkgbase m = env.pkgbase m' → m = m'

theorem oneName_of_rising (h : (members.map env.pkgbase).Pairwise UnitsLT) : OneName env members := by
  intro m hm m' hm' heq
  exact List.inj_on_of_nodup_map (h.imp UnitsLT.ne) hm hm' heq

theorem byName?_eq_some {l : List V} (h : OneName env l) {name : String} {m : V} :
    byName? env l name = some m ↔ m ∈ l ∧ env.pkgbase m = name := by
  have hmem : ∀ m', m' ∈ l.filter (env.pkgbase · = name) ↔ m' ∈ l ∧ env.pkgbase m' = name := by simp
  constructor
  · intro hlast
    exact (hmem m).mp (List.mem_of_getLast? hlast)
  · intro hm
    cases hlast : byName? env l name with
    | none =>
      have hnil : l.filter (env.pkgbase · = name) = [] := List.getLast?_eq_none_iff.mp hlast
      exact absurd ((hmem m).mpr hm) (hnil ▸ List.not_mem_nil)
    | some m' =>
      obtain ⟨hm', hname⟩ := (hmem m').mp (List.mem_of_getLast? hlast)
      rw [h m' hm' m hm.1 (hname.trans hm.2.symm)]

theorem byName?_congr {l l' : List V} (h : OneName env l) (h' : OneName env l') {name : String}
    (hmem : ∀ m, m ∈ l ∧ env.pkgbase m = name ↔ m ∈ l' ∧ env.pkgbase m = name) : byName? env l name = byName? env l' name :=
  Option.ext fun m => (byName?_eq_some h).trans ((hmem m).trans (byName?_eq_some h').symm)

theorem byName?_eq_none {l : List V} {name : String} (h : name ∉ l.map env.pkgbase) : byName? env l name = none := by
  have hnil : l.filter (env.pkgbase · = name) = [] := List.filter_eq_nil_iff.mpr fun m hm => by
    simp only [decide_eq_true_eq]
    exact fun heq => h (heq ▸ List.mem_map_of_mem hm)
  rw [byName?, hnil]
  rfl

/-- The change of a name from one revision to the next. -/
def changeOf (env : ChangeReaders V) (old new : List V) (name : String) : CohortChange :=
  memberChange env name (byName? env old name) (byName? env new name)

/-! ## The merge -/

theorem changeOf_tail {m : V} {name : String} (hne : env.pkgbase m ≠ name) :
    byName? env (m :: members) name = byName? env members name := by
  rw [byName?, byName?, List.filter_cons_of_neg (by simpa using hne)]

theorem byName?_head {m : V} (h : ((m :: members).map env.pkgbase).Pairwise UnitsLT) :
    byName? env (m :: members) (env.pkgbase m) = some m :=
  (byName?_eq_some (oneName_of_rising h)).mpr ⟨List.mem_cons_self, rfl⟩

/-- The least name comes first, and what it has does not matter to the others. -/
theorem changes_cons (old old' new new' : List V) (name : String)
    (hmem : ∀ x, x ∈ old.map env.pkgbase ∨ x ∈ new.map env.pkgbase ↔
      x = name ∨ x ∈ old'.map env.pkgbase ∨ x ∈ new'.map env.pkgbase)
    (hleast : ∀ x, x ∈ old'.map env.pkgbase ∨ x ∈ new'.map env.pkgbase → UnitsLT name x)
    (hold : ∀ x, name ≠ x → byName? env old x = byName? env old' x)
    (hnew : ∀ x, name ≠ x → byName? env new x = byName? env new' x) :
    (unionNames env old new).map (changeOf env old new) =
      changeOf env old new name :: (unionNames env old' new').map (changeOf env old' new') := by
  have hnames : unionNames env old new = name :: unionNames env old' new' := by
    refine unionNames_eq (List.pairwise_cons.mpr ⟨fun x hx => hleast x (mem_unionNames.mp hx), unionNames_rising⟩) fun x => ?_
    rw [List.mem_cons, mem_unionNames]
    exact (hmem x).symm
  rw [hnames, List.map_cons]
  refine congrArg _ (List.map_congr_left fun x hx => ?_)
  have hne := (hleast x (mem_unionNames.mp hx)).ne
  rw [changeOf, changeOf, hold x hne, hnew x hne]

/-- The merge of two rising lists has the changes of all their names. -/
theorem changeMerge_eq (hold : (old.map env.pkgbase).Pairwise UnitsLT) (hnew : (new.map env.pkgbase).Pairwise UnitsLT) :
    changeMerge env old new = (unionNames env old new).map (changeOf env old new) := by
  fun_induction changeMerge env old new with
  | case1 => rfl
  | case2 m olds ih =>
    rw [List.map_cons, List.pairwise_cons] at hold
    rw [ih hold.2 hnew, changes_cons (m :: olds) olds [] [] (env.pkgbase m)]
    · rw [changeOf, byName?_head (List.pairwise_cons.mpr hold), byName?_eq_none (by simp)]
    · simp
    · simpa using hold.1
    · exact fun x hne => changeOf_tail hne
    · exact fun _ _ => rfl
  | case3 m news ih =>
    rw [List.map_cons, List.pairwise_cons] at hnew
    rw [ih hold hnew.2, changes_cons [] [] (m :: news) news (env.pkgbase m)]
    · rw [changeOf, byName?_head (List.pairwise_cons.mpr hnew), byName?_eq_none (by simp)]
    · simp
    · simpa using hnew.1
    · exact fun _ _ => rfl
    · exact fun x hne => changeOf_tail hne
  | case4 m olds m' news heq ih =>
    rw [List.map_cons, List.pairwise_cons] at hold hnew
    rw [ih hold.2 hnew.2, changes_cons (m :: olds) olds (m' :: news) news (env.pkgbase m')]
    · rw [changeOf, byName?_head (List.pairwise_cons.mpr hnew), ← heq, byName?_head (List.pairwise_cons.mpr hold)]
    · intro x
      simp only [List.map_cons, List.mem_cons, heq]
      tauto
    · rintro x (hx | hx)
      · exact heq ▸ hold.1 x hx
      · exact hnew.1 x hx
    · exact fun x hne => changeOf_tail (heq ▸ hne)
    · exact fun x hne => changeOf_tail hne
  | case5 m olds m' news hne hlt ih =>
    rw [ih (List.pairwise_cons.mp hold).2 hnew]
    have hold' := List.pairwise_cons.mp hold
    have hnew' := List.pairwise_cons.mp hnew
    rw [changes_cons (m :: olds) olds (m' :: news) (m' :: news) (env.pkgbase m)]
    · rw [changeOf, byName?_head hold, byName?_eq_none]
      rintro hx
      rcases List.mem_cons.mp hx with hx | hx
      · exact hne hx
      · exact (UnitsLT.trans hlt (hnew'.1 _ hx)).ne rfl
    · intro x
      simp only [List.map_cons, List.mem_cons]
      tauto
    · rintro x (hx | hx)
      · exact hold'.1 x hx
      · rcases List.mem_cons.mp hx with rfl | hx
        · exact hlt
        · exact UnitsLT.trans hlt (hnew'.1 _ hx)
    · exact fun x hne => changeOf_tail hne
    · exact fun _ _ => rfl
  | case6 m olds m' news hne hle ih =>
    have hlt : UnitsLT (env.pkgbase m') (env.pkgbase m) := unitsLT_of_ne (Ne.symm hne) (not_not.mp hle)
    rw [ih hold (List.pairwise_cons.mp hnew).2]
    have hold' := List.pairwise_cons.mp hold
    have hnew' := List.pairwise_cons.mp hnew
    rw [changes_cons (m :: olds) (m :: olds) (m' :: news) news (env.pkgbase m')]
    · rw [changeOf, byName?_head hnew, byName?_eq_none]
      rintro hx
      rcases List.mem_cons.mp hx with hx | hx
      · exact hne hx.symm
      · exact (UnitsLT.trans hlt (hold'.1 _ hx)).ne rfl
    · intro x
      simp only [List.map_cons, List.mem_cons]
      tauto
    · rintro x (hx | hx)
      · rcases List.mem_cons.mp hx with rfl | hx
        · exact hlt
        · exact UnitsLT.trans hlt (hold'.1 _ hx)
      · exact hnew'.1 x hx
    · exact fun _ _ => rfl
    · exact fun x hne => changeOf_tail hne

/-! ## Lookups -/

theorem ChunksHold.covers {index start : Nat} {parts : List (List V)} {chunks : List MemberChunk}
    (h : ChunksHold env.toReaders t r.revision index start parts chunks) {k : Nat} (hlow : start ≤ k)
    (hhigh : k < start + parts.flatten.length) : ∃ chunk ∈ chunks, chunk.start ≤ k ∧ k < chunk.start + chunk.count := by
  induction h with
  | nil => simp at hhigh; omega
  | @cons index start values parts chunk chunks row _ _ _ _ _ _ _ hchunk _ ih =>
    subst hchunk
    rw [List.flatten_cons, List.length_append] at hhigh
    by_cases hfirst : k < start + values.length
    · exact ⟨_, List.mem_cons_self, hlow, hfirst⟩
    · obtain ⟨chunk, hchunk, hk⟩ := ih (by omega) (by omega)
      exact ⟨chunk, List.mem_cons_of_mem _ hchunk, hk⟩

theorem ChunksHold.sizes {index start : Nat} {parts : List (List V)} {chunks : List MemberChunk}
    (h : ChunksHold env.toReaders t r.revision index start parts chunks) :
    ∀ chunk ∈ chunks, 1 ≤ chunk.count ∧ chunk.count ≤ 100 ∧ chunk.start + chunk.count ≤ start + parts.flatten.length := by
  induction h with
  | nil => simp
  | @cons index start values parts chunk chunks row _ _ _ _ _ hne hshort hchunk _ ih =>
    subst hchunk
    rw [List.flatten_cons, List.length_append]
    intro chunk hchunk
    rcases List.mem_cons.mp hchunk with rfl | hchunk
    · exact ⟨List.length_pos_of_ne_nil hne, hshort, by dsimp only; omega⟩
    · obtain ⟨h₁, h₂, h₃⟩ := ih chunk hchunk
      exact ⟨h₁, h₂, by omega⟩

theorem hydrate_ok (h : Stored env.toReaders t r members) {chunk : MemberChunk} (hstart : chunk.start ≤ maxSafeInteger)
    (hcount : 1 ≤ chunk.count) (hshort : chunk.count ≤ 100) :
    hydrate env t r chunk = .ok (((members.drop chunk.start).take chunk.count).zipIdx chunk.start) := by
  rw [hydrate, h.page_ok hstart hcount (by omega)]
  rfl

theorem mem_hydrated {start count k : Nat} {m : V} :
    (m, k) ∈ ((members.drop start).take count).zipIdx start ↔ start ≤ k ∧ k < start + count ∧ members[k]? = some m := by
  rw [List.mem_zipIdx_iff_le_and_getElem?_sub, List.getElem?_take, List.getElem?_drop]
  constructor
  · rintro ⟨hle, hget⟩
    split_ifs at hget with hlt
    exact ⟨hle, by omega, by rwa [Nat.add_sub_cancel' hle] at hget⟩
  · rintro ⟨hle, hlt, hget⟩
    refine ⟨hle, ?_⟩
    rw [if_pos (by omega), Nat.add_sub_cancel' hle]
    exact hget

/-- The members of some names are found, whichever chunks they are in. -/
theorem Stored.named_ok (h : Stored env.toReaders t r members) (names : List String) :
    ∃ found, namedCohortMembers env t r names = .ok found ∧ ∀ m, m ∈ found ↔ m ∈ members ∧ env.pkgbase m ∈ names := by
  have hread : readCohortManifest env.toReaders r = .ok (env.manifest r.manifestJson) := if_neg (not_not.mpr h.intact)
  rw [namedCohortMembers, hread, ok_bind]
  rcases h.form with ⟨hinline, -⟩ | ⟨⟨chunks, parts, hchunked⟩, hrows⟩
  · rw [hinline]
    exact ⟨_, rfl, fun m => by simp⟩
  · rw [hchunked.manifest]
    dsimp only
    generalize hnamed : (t.members.filter fun row => row.revision = r.revision ∧ names.contains row.pkgbase = true) = rows
    have hrow : ∀ row, row ∈ rows ↔ ∃ k m, members[k]? = some m ∧ env.pkgbase m ∈ names ∧
        row = ⟨r.revision, env.pkgbase m, some k⟩ := by
      intro row
      have hindex : row ∈ t.members.filter (·.revision = r.revision) ↔
          ∃ k m, members[k]? = some m ∧ row = ⟨r.revision, env.pkgbase m, some k⟩ := by
        rw [hrows.mem_iff, memberRows, List.mem_mapIdx]
        constructor
        · rintro ⟨k, hk, rfl⟩
          exact ⟨k, members[k], List.getElem?_eq_getElem hk, rfl⟩
        · rintro ⟨k, m, hm, rfl⟩
          obtain ⟨hk, rfl⟩ := List.getElem?_eq_some_iff.mp hm
          exact ⟨k, hk, rfl⟩
      rw [List.mem_filter, decide_eq_true_eq] at hindex
      rw [← hnamed, List.mem_filter, decide_eq_true_eq, ← and_assoc, hindex]
      constructor
      · rintro ⟨⟨k, m, hm, rfl⟩, hname⟩
        exact ⟨k, m, hm, List.contains_iff_mem.mp hname, rfl⟩
      · rintro ⟨k, m, hm, hname, rfl⟩
        exact ⟨⟨k, m, hm, rfl⟩, List.contains_iff_mem.mpr hname⟩
    generalize hpicked : (chunks.filter fun chunk => rows.any fun row =>
      chunk.start ≤ row.ordinal.getD 0 && row.ordinal.getD 0 < chunk.start + chunk.count) = picked
    have hsizes := hchunked.chunks.sizes
    rw [hchunked.flatten, Nat.zero_add] at hsizes
    have hpick : ∀ chunk ∈ picked, chunk ∈ chunks := fun chunk hchunk => (List.mem_filter.mp (hpicked ▸ hchunk)).1
    have hhydrate : picked.mapM (hydrate env t r) = .ok (picked.map fun chunk =>
        ((members.drop chunk.start).take chunk.count).zipIdx chunk.start) := by
      refine (mapM_filterMap (p := fun _ => True)
        (g := fun chunk => some (((members.drop chunk.start).take chunk.count).zipIdx chunk.start)) ?_ fun _ _ _ => ⟨_, rfl⟩).mpr
        ⟨fun _ _ => trivial, by rw [List.filterMap_eq_map']⟩
      intro chunk hchunk y
      obtain ⟨h₁, h₂, h₃⟩ := hsizes chunk (hpick chunk hchunk)
      have hfew := h.few
      rw [hydrate_ok h (by simp only [maxSafeInteger]; omega) h₁ h₂]
      simp
    rw [hhydrate, ok_bind]
    have hmem : ∀ m k, (m, k) ∈ (picked.map fun chunk => ((members.drop chunk.start).take chunk.count).zipIdx chunk.start).flatten ↔
        members[k]? = some m ∧ ∃ chunk ∈ picked, chunk.start ≤ k ∧ k < chunk.start + chunk.count := by
      intro m k
      rw [List.mem_flatten]
      constructor
      · rintro ⟨l, hl, hm⟩
        obtain ⟨chunk, hchunk, rfl⟩ := List.mem_map.mp hl
        obtain ⟨h₁, h₂, h₃⟩ := mem_hydrated.mp hm
        exact ⟨h₃, chunk, hchunk, h₁, h₂⟩
      · rintro ⟨hm, chunk, hchunk, h₁, h₂⟩
        exact ⟨_, List.mem_map_of_mem hchunk, mem_hydrated.mpr ⟨h₁, h₂, hm⟩⟩
    generalize (picked.map fun chunk => ((members.drop chunk.start).take chunk.count).zipIdx chunk.start).flatten = hydrated at hmem ⊢
    have hrowMember : ∀ row ∈ rows, ∀ m, rowMember env hydrated row = .ok m ↔
        True ∧ (row.ordinal.bind fun k => members[k]?) = some m := by
      intro row hr m
      obtain ⟨k, m', hm', hname, rfl⟩ := (hrow row).mp hr
      obtain ⟨hk, -⟩ := List.getElem?_eq_some_iff.mp hm'
      obtain ⟨chunk, hchunk, hlow, hhigh⟩ := hchunked.chunks.covers (Nat.zero_le k)
        (by rw [hchunked.flatten, Nat.zero_add]; exact hk)
      have hin : (m', k) ∈ hydrated := by
        refine (hmem m' k).mpr ⟨hm', chunk, ?_, hlow, hhigh⟩
        rw [← hpicked, List.mem_filter]
        exact ⟨hchunk, List.any_eq_true.mpr ⟨_, hr, by simp [hlow, hhigh]⟩⟩
      rw [rowMember]
      cases hfind : hydrated.reverse.find? fun entry => decide (some k = some entry.2) with
      | none =>
        have hno := List.find?_eq_none.mp hfind (m', k) (List.mem_reverse.mpr hin)
        simp at hno
      | some entry =>
        obtain ⟨m'', k'⟩ := entry
        have hk' : k = k' := by simpa using List.find?_some hfind
        subst hk'
        have hm'' := ((hmem m'' k).mp (List.mem_reverse.mp (List.mem_of_find?_eq_some hfind))).1
        rw [hm'] at hm''
        obtain rfl := Option.some.inj hm''
        simp [hm']
    refine ⟨rows.filterMap fun row => row.ordinal.bind fun k => members[k]?, (mapM_filterMap hrowMember ?_).mpr
      ⟨fun _ _ => trivial, rfl⟩, fun m => ?_⟩
    · intro row hr _
      obtain ⟨k, m, hm, -, rfl⟩ := (hrow row).mp hr
      exact ⟨m, hm⟩
    · rw [List.mem_filterMap]
      constructor
      · rintro ⟨row, hr, hm⟩
        obtain ⟨k, m', hm', hname, rfl⟩ := (hrow row).mp hr
        obtain rfl := Option.some.inj (hm'.symm.trans hm)
        exact ⟨List.mem_of_getElem? hm', hname⟩
      · rintro ⟨hm, hname⟩
        obtain ⟨k, hk⟩ := List.getElem?_of_mem hm
        exact ⟨_, (hrow _).mpr ⟨k, m, hk, hname, rfl⟩, hk⟩

/-! ## Pages of changes -/

theorem Stored.mem_index (h : Stored env.toReaders t r members) (name : String) :
    (∃ row ∈ t.members, row.revision = r.revision ∧ row.pkgbase = name) ↔ name ∈ members.map env.pkgbase := by
  have hperm : ∃ ordinals, (t.members.filter (·.revision = r.revision)).Perm (memberRows env.toReaders r.revision members ordinals) :=
    h.form.elim (fun h => ⟨false, h.2⟩) fun h => ⟨true, h.2⟩
  obtain ⟨ordinals, hperm⟩ := hperm
  have hnames : (memberRows env.toReaders r.revision members ordinals).map (·.pkgbase) = members.map env.pkgbase :=
    List.ext_getElem (by simp [memberRows]) fun i _ _ => by simp [memberRows]
  rw [← hnames, ← (hperm.map _).mem_iff, List.mem_map]
  simp only [List.mem_filter, decide_eq_true_eq]
  exact ⟨fun ⟨row, hrow, hrevision, hname⟩ => ⟨row, ⟨hrow, hrevision⟩, hname⟩,
    fun ⟨row, ⟨hrow, hrevision⟩, hname⟩ => ⟨row, hrow, hrevision, hname⟩⟩

section
variable {p : ScopeRecord}

theorem mem_indexNames (hr : Stored env.toReaders t r new) (hp : Stored env.toReaders t p old) (name : String) :
    name ∈ indexNames t r.revision p.revision ↔ name ∈ unionNames env old new := by
  rw [indexNames, List.mem_eraseDups, List.mem_map, mem_unionNames, ← hp.mem_index, ← hr.mem_index]
  simp only [List.mem_filter, decide_eq_true_eq]
  constructor
  · rintro ⟨row, ⟨hrow, h | h⟩, hname⟩
    · exact .inr ⟨row, hrow, h, hname⟩
    · exact .inl ⟨row, hrow, h, hname⟩
  · rintro (⟨row, hrow, h, hname⟩ | ⟨row, hrow, h, hname⟩)
    · exact ⟨row, ⟨hrow, .inr h⟩, hname⟩
    · exact ⟨row, ⟨hrow, .inl h⟩, hname⟩

theorem indexNames_length (hr : Stored env.toReaders t r new) (hp : Stored env.toReaders t p old) :
    (indexNames t r.revision p.revision).length = (unionNames env old new).length :=
  ((List.perm_ext_iff_of_nodup (nodup_eraseDups _) (unionNames_rising.imp UnitsLT.ne)).mpr (mem_indexNames hr hp)).length_eq

/-- The names of the two revisions that come after a cursor. -/
def namesAfter (env : ChangeReaders V) (old new : List V) (after : String) : List String :=
  (unionNames env old new).filter fun name => ¬UnitsLE name after

theorem mem_namesAfter {name after : String} :
    name ∈ namesAfter env old new after ↔ name ∈ unionNames env old new ∧ UnitsLT after name := by
  rw [namesAfter, List.mem_filter, decide_eq_true_eq]
  rfl

theorem namesAfter_rising {after : String} : (namesAfter env old new after).Pairwise UnitsLT := unionNames_rising.filter _

theorem pageNames_eq (hr : Stored env.toReaders t r new) (hp : Stored env.toReaders t p old) (after : String) :
    pageNames t r.revision p.revision after = (namesAfter env old new after).take 26 := by
  refine congrArg (List.take 26) (rising_ext (sorted_rising ((nodup_eraseDups _).filter _)) namesAfter_rising fun x => ?_)
  rw [Rebuild.mem_sorted, List.mem_filter, mem_indexNames hr hp, namesAfter, List.mem_filter]

theorem previousCohortScope_ok (hp : Stored env.toReaders t p old) (hnext : r.revision = p.revision + 1) (hfirst : 1 ≤ p.revision)
    (hprevious : t.revisions.find? (·.revision = p.revision) = some p) : previousCohortScope env t r = .ok (some p) := by
  have hread : readCohortManifest env.toReaders p = .ok (env.manifest p.manifestJson) := if_neg (not_not.mpr hp.intact)
  rw [previousCohortScope, if_neg (by omega), hnext, Nat.add_sub_cancel, hprevious]
  dsimp only
  rw [hread]
  rfl

theorem byName?_found {names : List String} {found : List V} (h : (members.map env.pkgbase).Pairwise UnitsLT)
    (hfound : ∀ m, m ∈ found ↔ m ∈ members ∧ env.pkgbase m ∈ names) {name : String} (hname : name ∈ names) :
    byName? env found name = byName? env members name := by
  have hone := oneName_of_rising h
  refine byName?_congr (fun m hm m' hm' => hone m ((hfound m).mp hm).1 m' ((hfound m').mp hm').1) hone fun m => ?_
  rw [hfound]
  exact ⟨fun ⟨⟨hm, _⟩, heq⟩ => ⟨hm, heq⟩, fun ⟨hm, heq⟩ => ⟨⟨hm, heq ▸ hname⟩, heq⟩⟩

theorem byName?_ne_none {l : List V} {name : String} (h : name ∈ l.map env.pkgbase) : byName? env l name ≠ none := by
  obtain ⟨m, hm, rfl⟩ := List.mem_map.mp h
  intro hnone
  have hnil := List.getLast?_eq_none_iff.mp hnone
  have hmem : m ∈ l.filter (env.pkgbase · = env.pkgbase m) := List.mem_filter.mpr ⟨hm, decide_eq_true rfl⟩
  exact absurd hmem (hnil ▸ List.not_mem_nil)

/-- A page has the changes of the next names, and a cursor when there are more. -/
theorem cohortChangePage_ok (hr : Stored env.toReaders t r new) (hp : Stored env.toReaders t p old)
    (hnext : r.revision = p.revision + 1) (hfirst : 1 ≤ p.revision)
    (hprevious : t.revisions.find? (·.revision = p.revision) = some p) {after : String}
    (hafter : after = "" ∨ isPackageName after.toList = true) :
    cohortChangePage env t r after = .ok (((namesAfter env old new after).take 25).map (changeOf env old new),
      if (namesAfter env old new after).length > 25 then ((namesAfter env old new after).take 25).getLast? else none) := by
  have htake : ((namesAfter env old new after).take 26).take 25 = (namesAfter env old new after).take 25 := by
    rw [List.take_take]
    rfl
  have hmore : ((namesAfter env old new after).take 26).length > 25 ↔ (namesAfter env old new after).length > 25 := by
    rw [List.length_take]
    omega
  obtain ⟨oldFound, hold, holdMem⟩ := hp.named_ok ((namesAfter env old new after).take 25)
  obtain ⟨newFound, hnew, hnewMem⟩ := hr.named_ok ((namesAfter env old new after).take 25)
  rw [cohortChangePage, if_neg (by tauto), previousCohortScope_ok hp hnext hfirst hprevious, ok_bind]
  simp only [Option.map_some, Option.getD_some, pageNames_eq hr hp, htake, hmore, hold, hnew, ok_bind]
  have hchanges : ((namesAfter env old new after).take 25).mapM (fun name =>
      if byName? env oldFound name = none ∧ byName? env newFound name = none then
        (reject "Cohort change index integrity check failed." 409 : Except PolicyError CohortChange)
      else .ok (memberChange env name (byName? env oldFound name) (byName? env newFound name))) =
      .ok (((namesAfter env old new after).take 25).map (changeOf env old new)) := by
    refine (mapM_filterMap (p := fun _ => True) (g := fun name => some (changeOf env old new name)) ?_ fun _ _ _ => ⟨_, rfl⟩).mpr
      ⟨fun _ _ => trivial, by rw [List.filterMap_eq_map']⟩
    intro name hname change
    have hunion := mem_unionNames.mp (mem_namesAfter.mp (List.mem_of_mem_take hname)).1
    rw [byName?_found hp.ordered holdMem hname, byName?_found hr.ordered hnewMem hname, if_neg]
    · simp [changeOf]
    · rintro ⟨hnone, hnone'⟩
      exact hunion.elim (fun h => byName?_ne_none h hnone) fun h => byName?_ne_none h hnone'
  rw [hchanges]
  rfl

/-- After the last name of a page come the names that the page left. -/
theorem namesAfter_cursor {after cursor : String} (hcursor : ((namesAfter env old new after).take 25).getLast? = some cursor) :
    namesAfter env old new cursor = (namesAfter env old new after).drop 25 := by
  have hsplit := List.take_append_drop 25 (namesAfter env old new after)
  have hrising : ((namesAfter env old new after).take 25 ++ (namesAfter env old new after).drop 25).Pairwise UnitsLT := by
    rw [hsplit]
    exact namesAfter_rising
  obtain ⟨hpage, hrest, hacross⟩ := List.pairwise_append.mp hrising
  have hmem : cursor ∈ (namesAfter env old new after).take 25 := List.mem_of_getLast? hcursor
  have hin := mem_namesAfter.mp (List.mem_of_mem_take hmem)
  have hlast := (ends_of_pairwise (hpage.imp UnitsLT.le) (List.ne_nil_of_mem hmem)).2.2
  rw [hcursor, Option.getD_some] at hlast
  refine rising_ext namesAfter_rising hrest fun x => ?_
  constructor
  · intro hx
    obtain ⟨hunion, hlt⟩ := mem_namesAfter.mp hx
    have hall : x ∈ namesAfter env old new after := mem_namesAfter.mpr ⟨hunion, hin.2.trans hlt⟩
    rw [← hsplit] at hall
    exact (List.mem_append.mp hall).resolve_left fun hpage => hlt (hlast x hpage)
  · intro hx
    exact mem_namesAfter.mpr ⟨(mem_namesAfter.mp (List.mem_of_mem_drop hx)).1, hacross cursor hmem x hx⟩

/-- Following the cursor gives the changes of the names after it, and nothing else. -/
theorem follows_iff (hr : Stored env.toReaders t r new) (hp : Stored env.toReaders t p old)
    (hnext : r.revision = p.revision + 1) (hfirst : 1 ≤ p.revision)
    (hprevious : t.revisions.find? (·.revision = p.revision) = some p) {after : String}
    (hafter : after = "" ∨ isPackageName after.toList = true) {changes : List CohortChange} :
    Follows env t r after changes ↔ changes = (namesAfter env old new after).map (changeOf env old new) := by
  induction hn : (namesAfter env old new after).length using Nat.strongRecOn generalizing after changes with
  | ind n ih =>
    have hpage := cohortChangePage_ok hr hp hnext hfirst hprevious hafter
    by_cases hmore : (namesAfter env old new after).length > 25
    · rw [if_pos hmore] at hpage
      obtain ⟨cursor, hcursor⟩ : ∃ cursor, ((namesAfter env old new after).take 25).getLast? = some cursor :=
        Option.ne_none_iff_exists'.mp fun hnone => by
          have hlength := congrArg List.length (List.getLast?_eq_none_iff.mp hnone)
          rw [List.length_take, List.length_nil] at hlength
          omega
      have hname : isPackageName cursor.toList = true := by
        have hunion := (mem_namesAfter.mp (List.mem_of_mem_take (List.mem_of_getLast? hcursor))).1
        rcases mem_unionNames.mp hunion with h | h
        · obtain ⟨m, hm, rfl⟩ := List.mem_map.mp h
          exact hp.named m hm
        · obtain ⟨m, hm, rfl⟩ := List.mem_map.mp h
          exact hr.named m hm
      rw [hcursor] at hpage
      have hdrop := namesAfter_cursor hcursor
      have hrest : ∀ rest, Follows env t r cursor rest ↔ rest = (namesAfter env old new cursor).map (changeOf env old new) := fun rest =>
        ih _ (by rw [hdrop, List.length_drop]; omega) (.inr hname) rfl
      have hmap : (namesAfter env old new after).map (changeOf env old new) =
          ((namesAfter env old new after).take 25).map (changeOf env old new) ++
            (namesAfter env old new cursor).map (changeOf env old new) := by
        rw [hdrop, ← List.map_append, List.take_append_drop]
      constructor
      · intro h
        cases h with
        | last h =>
          rw [hpage] at h
          cases h
        | next h htail =>
          rw [hpage] at h
          cases h
          rw [hmap, (hrest _).mp htail]
      · rintro rfl
        rw [hmap]
        exact .next hpage ((hrest _).mpr rfl)
    · rw [if_neg hmore, List.take_of_length_le (Nat.le_of_not_lt hmore)] at hpage
      constructor
      · intro h
        cases h with
        | last h =>
          rw [hpage] at h
          cases h
          rfl
        | next h htail =>
          rw [hpage] at h
          cases h
      · rintro rfl
        exact .last hpage

/-- The changes from one revision to the next, however both are stored: the pages, the stream and the
facts have one change for each name of the two, in the order of the names. -/
theorem cohort_changes_agree (hr : Stored env.toReaders t r new) (hp : Stored env.toReaders t p old)
    (hnext : r.revision = p.revision + 1) (hfirst : 1 ≤ p.revision)
    (hprevious : t.revisions.find? (·.revision = p.revision) = some p) :
    ∃ changes : List CohortChange, (∀ followed, Follows env t r "" followed ↔ followed = changes) ∧
      cohortChangeStream env t r = .ok changes ∧
      factChanges env t r = .ok (match env.manifest r.manifestJson, env.manifest p.manifestJson with
        | .inline _, .inline _ => .list changes
        | _, _ => .counted changes.length) ∧
      (changes.map (·.pkgbase)).Pairwise UnitsLT ∧
      ∀ name, name ∈ changes.map (·.pkgbase) ↔ name ∈ old.map env.pkgbase ∨ name ∈ new.map env.pkgbase := by
  have hnames : ((unionNames env old new).map (changeOf env old new)).map (·.pkgbase) = unionNames env old new := by
    rw [List.map_map]
    exact List.map_id _
  have hstart : namesAfter env old new "" = unionNames env old new := by
    refine List.filter_eq_self.mpr fun name hname => decide_eq_true ?_
    rcases mem_unionNames.mp hname with h | h
    · obtain ⟨m, hm, rfl⟩ := List.mem_map.mp h
      exact not_unitsLE_empty (hp.named m hm)
    · obtain ⟨m, hm, rfl⟩ := List.mem_map.mp h
      exact not_unitsLE_empty (hr.named m hm)
  have hprev := previousCohortScope_ok hp hnext hfirst hprevious
  have hreadR : readCohortManifest env.toReaders r = .ok (env.manifest r.manifestJson) := if_neg (not_not.mpr hr.intact)
  have hreadP : readCohortManifest env.toReaders p = .ok (env.manifest p.manifestJson) := if_neg (not_not.mpr hp.intact)
  refine ⟨(unionNames env old new).map (changeOf env old new), fun followed => ?_, ?_, ?_, ?_, fun name => ?_⟩
  · rw [follows_iff hr hp hnext hfirst hprevious (.inl rfl), hstart]
  · rw [cohortChangeStream, hprev, ok_bind]
    dsimp only
    rw [hp.stream_ok, ok_bind, hr.stream_ok, ok_bind, changeMerge_eq hp.ordered hr.ordered]
    rfl
  · have hcount := indexNames_length hr hp
    rw [factChanges, hreadR, ok_bind, hprev, ok_bind]
    dsimp only
    rw [hreadP]
    change (match env.manifest r.manifestJson, env.manifest p.manifestJson with | .inline _, .inline _ => _ | _, _ => _) = _
    rcases hr.form with ⟨hinline, -⟩ | ⟨⟨chunks, parts, hchunked⟩, -⟩
    · rw [hinline]
      rcases hp.form with ⟨hinline', -⟩ | ⟨⟨chunks', parts', hchunked'⟩, -⟩
      · rw [hinline']
        dsimp only
        rw [unionNames_eq (l := Rebuild.sorted ((old.map env.pkgbase).eraseDups ++ (new.map env.pkgbase).eraseDups).eraseDups)
          (sorted_rising (nodup_eraseDups _)) (by simp [Rebuild.mem_sorted])]
        rfl
      · rw [hchunked'.manifest]
        simp only [Option.map_some, Option.getD_some, hcount, List.length_map]
        rfl
    · rw [hchunked.manifest]
      simp only [Option.map_some, Option.getD_some, hcount, List.length_map]
      rfl
  · rw [hnames]
    exact unionNames_rising
  · rw [hnames]
    exact mem_unionNames

end
end
/-! ## Two revisions -/

/-- Members as a name and what the rest of them says. -/
def sampleReaders : ChangeReaders (String × String) where
  sha256 := String.ofList
  manifest := fun text => if text = "old".toList then .inline [("a", "1"), ("b", "1")]
    else .chunked 2 [⟨0, 0, 1, "b", "b", "[b]"⟩, ⟨1, 1, 1, "c", "c", "[c]"⟩]
  members := fun text => if text = "[b]".toList then [("b", "2")] else [("c", "1")]
  pkgbase := Prod.fst
  fullVersion := fun m => some m.2
  manifestSha256 := fun m => some m.2
  collection := fun _ => "extra"
  architectures := fun _ => ["x86_64"]
  cause := fun _ => "rebuild"
  reason := fun _ => "Rebuild."
  json := fun m => m.1.toList ++ m.2.toList

def sampleOld : ScopeRecord := ⟨1, "old".toList, "old"⟩

def sampleNew : ScopeRecord := ⟨2, "new".toList, "new"⟩

def sampleTables : CohortTables where
  revisions := [sampleOld, sampleNew]
  chunks := [⟨2, 0, "[b]".toList, "[b]"⟩, ⟨2, 1, "[c]".toList, "[c]"⟩]
  members := [⟨1, "a", none⟩, ⟨1, "b", none⟩, ⟨2, "b", some 0⟩, ⟨2, "c", some 1⟩]

theorem sampleOld_stored : Stored sampleReaders.toReaders sampleTables sampleOld [("a", "1"), ("b", "1")] where
  intact := by decide
  ordered := by decide
  named := by decide
  few := by decide
  form := .inl ⟨by simp [sampleReaders, sampleOld], .refl _⟩

theorem sampleNew_stored : Stored sampleReaders.toReaders sampleTables sampleNew [("b", "2"), ("c", "1")] where
  intact := by decide
  ordered := by decide
  named := by decide
  few := by decide
  form := .inr ⟨⟨_, [[("b", "2")], [("c", "1")]], by simp [sampleReaders, sampleNew], rfl,
    .cons List.mem_cons_self rfl rfl (by decide) (by simp [sampleReaders]) (by simp) (by decide) rfl
      (.cons (List.mem_cons_of_mem _ List.mem_cons_self) rfl rfl (by decide) (by simp [sampleReaders]) (by simp) (by decide) rfl
        (.nil _ _)), .refl _⟩, .refl _⟩

theorem sample_changes_agree : ∃ changes,
    (∀ followed, Follows sampleReaders sampleTables sampleNew "" followed ↔ followed = changes) ∧
      cohortChangeStream sampleReaders sampleTables sampleNew = .ok changes := by
  obtain ⟨changes, hpages, hstream, -⟩ := cohort_changes_agree sampleNew_stored sampleOld_stored rfl (by decide) rfl
  exact ⟨changes, hpages, hstream⟩

end Omapkg.Server.Scope
