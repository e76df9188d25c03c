import Mathlib.Data.List.Dedup
import Mathlib.Data.List.Perm.Basic
import Mathlib.Data.String.Basic
import Omapkg.Server.CanonicalText
import Omapkg.Server.OwnedRepository
import Omapkg.Server.RebuildMembers
/-!
# Comparing two imports

`compareImportEntries` of `src/src/lib/server/catalog-reconciliation.ts` compares the packages of
two imports key by key. `reconcileCatalogImports` leaves the comparison to SQL, which joins the
rows of one import with those of the other.
-/

namespace Omapkg.Server.Reconciliation

open Utf Json Fallible
open Owned (ArtifactArchitecture)
open Rebuild (UnitsLE sorted sorted_perm sorted_pairwise mem_sorted)

/-! ## Entries -/

inductive Surface where
  | binary | recipe
  deriving DecidableEq, Repr

def Surface.text : Surface → String
  | .binary => "binary"
  | .recipe => "recipe"

/-- The fields of an entry that a comparison looks at. -/
structure ImportEntry where
  name : String
  version : String
  architecture : ArtifactArchitecture
  target : Architecture
  collection : RepositoryName
  sha256 : String
  licenses : List JsString
  dependencies : List JsString
  makeDependencies : List JsString
  checkDependencies : List JsString
  provides : List JsString
  conflicts : List JsString
  replaces : List JsString
  surface : Option Surface
  deriving DecidableEq

/-- The lists of a comparison, in its order. -/
def ImportEntry.lists (entry : ImportEntry) : List (List JsString) :=
  [entry.dependencies, entry.makeDependencies, entry.checkDependencies, entry.provides, entry.conflicts, entry.replaces,
    entry.licenses]

def packageKey (entry : ImportEntry) : String := entry.collection.text ++ "/" ++ entry.target.text ++ "/" ++ entry.name

/-! ## Differences -/

inductive DifferenceKind where
  | missing | extra | version | architecture | artifact | metadata
  deriving DecidableEq, Repr

def DifferenceKind.text : DifferenceKind → String
  | .missing => "missing"
  | .extra => "extra"
  | .version => "version"
  | .architecture => "architecture"
  | .artifact => "artifact"
  | .metadata => "metadata"

structure Identity where
  version : String
  sha256 : String
  architecture : ArtifactArchitecture
  deriving DecidableEq

def Identity.json (i : Identity) : Json JsString :=
  .obj [(units "version", .str (units i.version)), (units "sha256", .str (units i.sha256)),
    (units "architecture", .str (units i.architecture.text))]

structure ImportDifference where
  key : String
  name : String
  target : Architecture
  collection : RepositoryName
  kind : DifferenceKind
  baseline : Option Identity
  candidate : Option Identity
  deriving DecidableEq

def identityJson : Option Identity → Json JsString
  | none => .null
  | some i => i.json

def ImportDifference.json (d : ImportDifference) : Json JsString :=
  .obj [(units "key", .str (units d.key)), (units "name", .str (units d.name)), (units "target", .str (units d.target.text)),
    (units "collection", .str (units d.collection.text)), (units "kind", .str (units d.kind.text)),
    (units "baseline", identityJson d.baseline), (units "candidate", identityJson d.candidate)]

def identity (entry : ImportEntry) : Identity := ⟨entry.version, entry.sha256, entry.architecture⟩

/-! ## compareImportEntries -/

/-- The entries of the scope, each key set once. -/
def index (scope : List RepositoryName) (entries : List ImportEntry) : Except PolicyError (List ImportEntry) :=
  (entries.filter fun entry => scope.contains entry.collection).foldlM (fun result entry =>
    if result.any (packageKey · = packageKey entry) = true then
      reject s!"Captured sources overlap for {packageKey entry}; choose a non-overlapping baseline." 409
    else .ok (result ++ [entry])) []

/-- `toSorted()`. -/
def toSorted (texts : List JsString) : List JsString := texts.insertionSort KeyLE

def relations (entry : ImportEntry) : List Char :=
  canonicalJson (.arr (.str (units (entry.surface.getD .binary).text) ::
    entry.lists.map fun texts => .arr ((toSorted texts).map .str)))

/-- How two packages with one key differ. -/
def changedKind (next old : ImportEntry) : Option DifferenceKind :=
  if next.version ≠ old.version then some .version
  else if next.architecture ≠ old.architecture then some .architecture
  else if next.sha256 ≠ old.sha256 then some .artifact
  else if relations next ≠ relations old then some .metadata
  else none

def differenceKind : Option ImportEntry → Option ImportEntry → Option DifferenceKind
  | none, _ => some .missing
  | some _, none => some .extra
  | some next, some old => changedKind next old

/-- What is pushed for a key that one of the imports has. -/
def difference (key : String) (next old : Option ImportEntry) : Option ImportDifference := do
  let entry ← next.or old
  let kind ← differenceKind next old
  some ⟨key, entry.name, entry.target, entry.collection, kind, old.map identity, next.map identity⟩

/-- `Map.get`. -/
def get (entries : List ImportEntry) (key : String) : Option ImportEntry := entries.find? (packageKey · = key)

def compareImportEntries (candidate baseline : List ImportEntry) (scope : List RepositoryName) :
    Except PolicyError (List ImportDifference) := do
  let proposed ← index scope candidate
  let reference ← index scope baseline
  let keys := sorted (proposed.map packageKey ++ reference.map packageKey).dedup
  .ok (keys.filterMap fun key => difference key (get proposed key) (get reference key))

/-! ## The statement -/

/-- How SQLite compares texts: a total order of its own. -/
structure Collation where
  le : JsString → JsString → Bool
  total : ∀ a b, (le a b || le b a) = true
  trans : ∀ a b c, le a b = true → le b c = true → le a c = true
  antisymm : ∀ a b, le a b = true → le b a = true → a = b

section
variable (collation : Collation)

/-- The column `relations`, the text of an array. -/
def relationsColumn (entry : ImportEntry) : List Char :=
  (Json.arr (.str (units (entry.surface.getD .binary).text) ::
    entry.lists.map fun texts => .arr ((texts.mergeSort collation.le).map .str))).print jsQuote

/-- `LEFT JOIN … USING(package_key)`. -/
def leftJoin (left right : List ImportEntry) : List (ImportEntry × Option ImportEntry) :=
  left.flatMap fun l =>
    match right.filter (packageKey · = packageKey l) with
    | [] => [(l, none)]
    | found => found.map fun r => (l, some r)

/-- The `CASE` over a baseline package and the candidate that was joined to it. -/
def joinedKind (b : ImportEntry) : Option ImportEntry → Option DifferenceKind
  | none => some .missing
  | some c =>
    if c.version ≠ b.version then some .version
    else if c.architecture ≠ b.architecture then some .architecture
    else if c.sha256 ≠ b.sha256 then some .artifact
    else if relationsColumn collation c ≠ relationsColumn collation b then some .metadata
    else none

/-- A row of the first `SELECT`, where its kind is not null. -/
def baselineRow (b : ImportEntry) (c : Option ImportEntry) : Option ImportDifference :=
  (joinedKind collation b c).map fun kind =>
    ⟨packageKey b, b.name, b.target, b.collection, kind, some (identity b), c.map identity⟩

/-- A row of the second `SELECT`. -/
def extraRow (c : ImportEntry) : ImportDifference :=
  ⟨packageKey c, c.name, c.target, c.collection, .extra, none, some (identity c)⟩

/-- `pairs`, without those of no kind. -/
def differenceRows (candidate baseline : List ImportEntry) : List ImportDifference :=
  (leftJoin baseline candidate).filterMap (fun row => baselineRow collation row.1 row.2) ++
    ((leftJoin candidate baseline).filter fun row => row.2.isNone).map fun row => extraRow row.1

end

/-! ## Keys -/

/-- A text without slashes ends at the first one. -/
theorem split_slash {s s' t t' : List Char} (hs : '/' ∉ s) (hs' : '/' ∉ s') (h : s ++ '/' :: t = s' ++ '/' :: t') :
    s = s' ∧ t = t' := by
  induction s generalizing s' with
  | nil =>
    rcases s' with _ | ⟨c, s'⟩
    · exact ⟨rfl, (List.cons.inj h).2⟩
    · exact absurd (List.mem_cons.mpr (.inl (List.cons.inj h).1)) hs'
  | cons a s ih =>
    rcases s' with _ | ⟨c, s'⟩
    · exact absurd (List.mem_cons.mpr (.inl (List.cons.inj h).1.symm)) hs
    · obtain ⟨hhead, hrest⟩ := List.cons.inj h
      obtain ⟨htail, hafter⟩ := ih (fun hm => hs (List.mem_cons_of_mem _ hm)) (fun hm => hs' (List.mem_cons_of_mem _ hm)) hrest
      exact ⟨by rw [hhead, htail], hafter⟩

theorem packageKey_toList (entry : ImportEntry) : (packageKey entry).toList =
    entry.collection.text.toList ++ '/' :: (entry.target.text.toList ++ '/' :: entry.name.toList) := by
  simp [packageKey]

theorem collection_text (r : RepositoryName) : '/' ∉ r.text.toList ∧ ∀ r' : RepositoryName, r.text = r'.text → r = r' := by
  cases r <;> exact ⟨by decide, fun r' => by cases r' <;> decide⟩

theorem target_text (a : Architecture) : '/' ∉ a.text.toList ∧ ∀ a' : Architecture, a.text = a'.text → a = a' := by
  cases a <;> exact ⟨by decide, fun a' => by cases a' <;> decide⟩

/-- A key has one collection, one target and one name. -/
theorem packageKey_inj {a b : ImportEntry} (h : packageKey a = packageKey b) :
    a.collection = b.collection ∧ a.target = b.target ∧ a.name = b.name := by
  have hlists := congrArg String.toList h
  rw [packageKey_toList, packageKey_toList] at hlists
  obtain ⟨hcollection, hrest⟩ := split_slash (collection_text _).1 (collection_text _).1 hlists
  obtain ⟨htarget, hname⟩ := split_slash (target_text _).1 (target_text _).1 hrest
  exact ⟨(collection_text _).2 _ (String.toList_injective hcollection), (target_text _).2 _ (String.toList_injective htarget),
    String.toList_injective hname⟩

theorem get_of_mem {entries : List ImportEntry} (h : (entries.map packageKey).Nodup) {e : ImportEntry} (he : e ∈ entries) :
    get entries (packageKey e) = some e := by
  induction entries with
  | nil => cases he
  | cons x entries ih =>
    rw [List.map_cons, List.nodup_cons] at h
    unfold get
    rw [List.find?_cons]
    rcases List.mem_cons.mp he with rfl | he
    · simp
    · have hne : packageKey x ≠ packageKey e := fun heq => h.1 (heq ▸ List.mem_map_of_mem he)
      rw [decide_eq_false hne]
      exact ih h.2 he

theorem get_eq_none {entries : List ImportEntry} {key : String} : get entries key = none ↔ key ∉ entries.map packageKey := by
  simp [get]

theorem filter_key {entries : List ImportEntry} (h : (entries.map packageKey).Nodup) (key : String) :
    entries.filter (packageKey · = key) = (get entries key).toList := by
  induction entries with
  | nil => rfl
  | cons x entries ih =>
    rw [List.map_cons, List.nodup_cons] at h
    rw [List.filter_cons, get, List.find?_cons]
    by_cases hx : packageKey x = key
    · have hnone : entries.filter (packageKey · = key) = [] := by
        rw [List.filter_eq_nil_iff]
        intro e he heq
        rw [decide_eq_true_eq] at heq
        exact h.1 (hx ▸ heq ▸ List.mem_map_of_mem he)
      rw [decide_eq_true hx, if_pos rfl, hnone]
      rfl
    · rw [decide_eq_false hx, if_neg Bool.false_ne_true]
      exact ih h.2

/-- Entries whose keys are not repeated join with one entry or none. -/
theorem leftJoin_eq {right : List ImportEntry} (h : (right.map packageKey).Nodup) (left : List ImportEntry) :
    leftJoin left right = left.map fun l => (l, get right (packageKey l)) := by
  unfold leftJoin
  rw [List.map_eq_flatMap]
  refine List.flatMap_congr fun l _ => ?_
  rw [filter_key h]
  cases get right (packageKey l) <;> rfl

/-! ## Relations -/

theorem mergeSort_eq_iff (collation : Collation) (xs ys : List JsString) :
    xs.mergeSort collation.le = ys.mergeSort collation.le ↔ xs.Perm ys := by
  constructor
  · intro h
    exact (List.mergeSort_perm xs collation.le).symm.trans (h ▸ List.mergeSort_perm ys collation.le)
  · intro h
    exact ((List.mergeSort_perm _ _).trans (h.trans (List.mergeSort_perm _ _).symm)).eq_of_pairwise
      (fun a b _ _ hab hba => collation.antisymm a b hab hba)
      (List.pairwise_mergeSort collation.trans collation.total _) (List.pairwise_mergeSort collation.trans collation.total _)

theorem toSorted_eq_iff (xs ys : List JsString) : toSorted xs = toSorted ys ↔ xs.Perm ys := by
  have htotal : Std.Total KeyLE := ⟨fun a b => le_total (α := List Nat) _ _⟩
  have htrans : IsTrans JsString KeyLE := ⟨fun a b c => le_trans (α := List Nat)⟩
  constructor
  · intro h
    have hys : (toSorted xs).Perm ys := h ▸ List.perm_insertionSort KeyLE ys
    exact (List.perm_insertionSort KeyLE xs).symm.trans hys
  · intro h
    exact ((List.perm_insertionSort KeyLE xs).trans (h.trans (List.perm_insertionSort KeyLE ys).symm)).eq_of_pairwise
      (fun a b _ _ hab hba => map_toNat_injective (le_antisymm (α := List Nat) hab hba))
      (List.pairwise_insertionSort _ _) (List.pairwise_insertionSort _ _)

/-- An array of a text and lists of texts. -/
def relationsArray (surface : JsString) (lists : List (List JsString)) : Json JsString :=
  .arr (.str surface :: lists.map fun texts => .arr (texts.map .str))

theorem relationsArray_inj {a b : JsString} {xs ys : List (List JsString)} :
    relationsArray a xs = relationsArray b ys ↔ a = b ∧ xs = ys := by
  have hstr : Function.Injective (Json.str : JsString → Json JsString) := fun _ _ h => Json.str.inj h
  have harr : Function.Injective fun texts : List JsString => (Json.arr (texts.map .str) : Json JsString) := fun _ _ h =>
    List.map_injective_iff.mpr hstr (Json.arr.inj h)
  unfold relationsArray
  rw [Json.arr.injEq, List.cons.injEq, Json.str.injEq, (List.map_injective_iff.mpr harr).eq_iff]

theorem canonicalElems_str (texts : List JsString) : canonicalElems (texts.map Json.str) = texts.map Json.str := by
  rw [canonicalElems_eq, List.map_map]
  rfl

theorem canonicalValue_relationsArray (a : JsString) (xs : List (List JsString)) :
    canonicalValue (relationsArray a xs) = relationsArray a xs := by
  rw [relationsArray, canonicalValue, canonicalElems, canonicalValue, canonicalElems_eq, List.map_map]
  refine congrArg (fun l => Json.arr (.str a :: l)) (List.map_congr_left fun texts _ => ?_)
  rw [Function.comp_apply, canonicalValue, canonicalElems_str]

/-- The lists agree up to their order. -/
def SameLists : List (List JsString) → List (List JsString) → Prop := List.Forall₂ List.Perm

theorem map_eq_iff_sameLists {f : List JsString → List JsString} (hf : ∀ xs ys, f xs = f ys ↔ xs.Perm ys)
    (xs ys : List (List JsString)) : xs.map f = ys.map f ↔ SameLists xs ys := by
  rw [← List.forall₂_eq_eq_eq, List.forall₂_map_left_iff, List.forall₂_map_right_iff]
  unfold SameLists
  constructor <;> exact List.Forall₂.imp fun a b => by rw [hf]; exact id

theorem print_relationsArray {a b : String} {xs ys : List (List JsString)} :
    (relationsArray (units a) xs).print jsQuote = (relationsArray (units b) ys).print jsQuote ↔ a = b ∧ xs = ys := by
  constructor
  · intro h
    obtain ⟨hunits, hlists⟩ := relationsArray_inj.mp (print_inj reads_jsQuote readsBack_jsQuote h)
    exact ⟨units_injective hunits, hlists⟩
  · rintro ⟨rfl, rfl⟩
    rfl

theorem relations_eq_iff (a b : ImportEntry) : relations a = relations b ↔
    (a.surface.getD .binary).text = (b.surface.getD .binary).text ∧ SameLists a.lists b.lists := by
  have hform : ∀ e : ImportEntry, relations e =
      (relationsArray (units (e.surface.getD .binary).text) (e.lists.map toSorted)).print jsQuote := by
    intro e
    rw [← canonicalValue_relationsArray, relationsArray, List.map_map]
    rfl
  rw [hform, hform, print_relationsArray, map_eq_iff_sameLists toSorted_eq_iff]

theorem relationsColumn_eq_iff (collation : Collation) (a b : ImportEntry) :
    relationsColumn collation a = relationsColumn collation b ↔
      (a.surface.getD .binary).text = (b.surface.getD .binary).text ∧ SameLists a.lists b.lists := by
  have hform : ∀ e : ImportEntry, relationsColumn collation e =
      (relationsArray (units (e.surface.getD .binary).text) (e.lists.map (·.mergeSort collation.le))).print jsQuote := by
    intro e
    rw [relationsArray, List.map_map]
    rfl
  rw [hform, hform, print_relationsArray, map_eq_iff_sameLists (mergeSort_eq_iff collation)]

/-- Both sides see the same change. -/
theorem joinedKind_some (collation : Collation) (b c : ImportEntry) : joinedKind collation b (some c) = changedKind c b := by
  have hrelations : relationsColumn collation c ≠ relationsColumn collation b ↔ relations c ≠ relations b := by
    rw [Ne, relationsColumn_eq_iff, Ne, relations_eq_iff]
  simp only [joinedKind, changedKind, hrelations]

/-! ## The rows are the differences -/

section
variable {collation : Collation} {candidate baseline : List ImportEntry}

theorem baselineRow_eq (hb : (baseline.map packageKey).Nodup) {b : ImportEntry}
    (hmem : b ∈ baseline) : baselineRow collation b (get candidate (packageKey b)) =
      difference (packageKey b) (get candidate (packageKey b)) (get baseline (packageKey b)) := by
  rw [get_of_mem hb hmem]
  cases hget : get candidate (packageKey b) with
  | none => rfl
  | some c =>
    have hkey : packageKey c = packageKey b := by simpa using List.find?_some hget
    obtain ⟨hcollection, htarget, hname⟩ := packageKey_inj hkey
    rw [baselineRow, joinedKind_some]
    have hdifference : difference (packageKey b) (some c) (some b) = (changedKind c b).bind fun kind =>
        some ⟨packageKey b, c.name, c.target, c.collection, kind, some (identity b), some (identity c)⟩ := rfl
    rw [hdifference, hcollection, htarget, hname]
    cases changedKind c b <;> rfl

theorem extraRow_eq (hc : (candidate.map packageKey).Nodup) {c : ImportEntry} (hmem : c ∈ candidate)
    (hnone : get baseline (packageKey c) = none) :
    difference (packageKey c) (get candidate (packageKey c)) (get baseline (packageKey c)) = some (extraRow c) := by
  rw [get_of_mem hc hmem, hnone]
  rfl

/-- The keys of the differences of two imports, as the statement goes through them. -/
def joinedKeys (candidate baseline : List ImportEntry) : List String :=
  baseline.map packageKey ++ (candidate.filter fun c => get baseline (packageKey c) = none).map packageKey

theorem joinedKeys_perm (hc : (candidate.map packageKey).Nodup) (hb : (baseline.map packageKey).Nodup) :
    (joinedKeys candidate baseline).Perm (sorted (candidate.map packageKey ++ baseline.map packageKey).dedup) := by
  refine List.Perm.trans ?_ (sorted_perm _).symm
  refine (List.perm_ext_iff_of_nodup ?_ (List.nodup_dedup _)).mpr fun key => ?_
  · refine List.nodup_append.mpr ⟨hb, hc.sublist (List.filter_sublist.map _), ?_⟩
    rintro k hk k' hk' rfl
    obtain ⟨c, hmem, rfl⟩ := List.mem_map.mp hk'
    have hnone := of_decide_eq_true (List.mem_filter.mp hmem).2
    exact get_eq_none.mp hnone hk
  · rw [List.mem_dedup, joinedKeys, List.mem_append, List.mem_append]
    constructor
    · rintro (hk | hk)
      · exact .inr hk
      · obtain ⟨c, hmem, rfl⟩ := List.mem_map.mp hk
        exact .inl (List.mem_map_of_mem (List.mem_of_mem_filter hmem))
    · rintro (hk | hk)
      · by_cases hin : key ∈ baseline.map packageKey
        · exact .inl hin
        · obtain ⟨c, hmem, rfl⟩ := List.mem_map.mp hk
          exact .inr (List.mem_map_of_mem (List.mem_filter.mpr ⟨hmem, decide_eq_true (get_eq_none.mpr hin)⟩))
      · exact .inl hk

theorem differenceRows_eq (hc : (candidate.map packageKey).Nodup) (hb : (baseline.map packageKey).Nodup) :
    differenceRows collation candidate baseline =
      (joinedKeys candidate baseline).filterMap fun key => difference key (get candidate key) (get baseline key) := by
  unfold differenceRows joinedKeys
  rw [leftJoin_eq hc, leftJoin_eq hb, List.filterMap_append, List.filterMap_map, List.filterMap_map, List.filterMap_map,
    List.filter_map, List.map_map]
  congr 1
  · exact List.filterMap_congr fun b hmem => baselineRow_eq hb hmem
  · have hfilter : candidate.filter ((fun row : ImportEntry × Option ImportEntry => row.2.isNone) ∘
        fun l => (l, get baseline (packageKey l))) = candidate.filter fun c => get baseline (packageKey c) = none := by
      refine List.filter_congr fun c _ => ?_
      cases hget : get baseline (packageKey c) <;> simp [hget]
    rw [hfilter, ← List.filterMap_eq_map]
    refine List.filterMap_congr fun c hmem => ?_
    obtain ⟨hc', hnone⟩ := List.mem_filter.mp hmem
    exact (extraRow_eq hc hc' (of_decide_eq_true hnone)).symm

/-- The statement's rows are the differences of the comparison, in some order. -/
theorem differenceRows_perm (hc : (candidate.map packageKey).Nodup) (hb : (baseline.map packageKey).Nodup) :
    (differenceRows collation candidate baseline).Perm
      ((sorted (candidate.map packageKey ++ baseline.map packageKey).dedup).filterMap fun key =>
        difference key (get candidate key) (get baseline key)) := by
  rw [differenceRows_eq hc hb]
  exact (joinedKeys_perm hc hb).filterMap _

theorem difference_key {key : String} {next old : Option ImportEntry} {d : ImportDifference}
    (h : difference key next old = some d) : d.key = key := by
  obtain ⟨entry, -, h⟩ := Option.bind_eq_some_iff.mp h
  obtain ⟨kind, -, h⟩ := Option.bind_eq_some_iff.mp h
  rw [← Option.some.inj h]

end

/-! ## compareImportEntries, where no key is repeated -/

theorem index_ok {scope : List RepositoryName} {entries : List ImportEntry}
    (h : ((entries.filter fun entry => scope.contains entry.collection).map packageKey).Nodup) :
    index scope entries = .ok (entries.filter fun entry => scope.contains entry.collection) := by
  unfold index
  generalize entries.filter (fun entry => scope.contains entry.collection) = kept at h
  suffices hrun : ∀ done : List ImportEntry, ((done ++ kept).map packageKey).Nodup →
      kept.foldlM (fun result entry =>
        if result.any (packageKey · = packageKey entry) = true then
          reject s!"Captured sources overlap for {packageKey entry}; choose a non-overlapping baseline." 409
        else .ok (result ++ [entry])) done = (.ok (done ++ kept) : Except PolicyError (List ImportEntry)) by
    exact hrun [] h
  clear h
  induction kept with
  | nil =>
    intro done _
    rw [List.append_nil]
    rfl
  | cons e kept ih =>
    intro done hdone
    have hfresh : ¬done.any (packageKey · = packageKey e) = true := by
      intro hany
      obtain ⟨x, hx, heq⟩ := List.any_eq_true.mp hany
      rw [List.map_append, List.nodup_append] at hdone
      exact hdone.2.2 (packageKey x) (List.mem_map_of_mem hx) (packageKey e) (List.mem_map_of_mem List.mem_cons_self)
        (of_decide_eq_true heq)
    rw [List.foldlM_cons, if_neg hfresh, ok_bind, ih (done ++ [e]) (by rwa [List.append_assoc, List.singleton_append]),
      List.append_assoc, List.singleton_append]

theorem compareImportEntries_ok {candidate baseline : List ImportEntry} {scope : List RepositoryName}
    (hscope : ∀ e ∈ candidate ++ baseline, scope.contains e.collection = true)
    (hc : (candidate.map packageKey).Nodup) (hb : (baseline.map packageKey).Nodup) :
    compareImportEntries candidate baseline scope =
      .ok ((sorted (candidate.map packageKey ++ baseline.map packageKey).dedup).filterMap fun key =>
        difference key (get candidate key) (get baseline key)) := by
  have hkeep : ∀ entries : List ImportEntry, entries ⊆ candidate ++ baseline →
      entries.filter (fun entry => scope.contains entry.collection) = entries := fun entries hsub =>
    List.filter_eq_self.mpr fun e he => hscope e (hsub he)
  have hcandidate := hkeep candidate (List.subset_append_left _ _)
  have hbaseline := hkeep baseline (List.subset_append_right _ _)
  unfold compareImportEntries
  rw [index_ok (by rwa [hcandidate]), index_ok (by rwa [hbaseline]), hcandidate, hbaseline]
  rfl

/-! ## The order of the keys -/

theorem units_ascii {s : String} (h : ∀ c ∈ s.toList, c.toNat < 128) : (units s).map UInt16.toNat = s.toList.map Char.toNat := by
  unfold units
  rw [List.map_flatMap, ← List.flatMap_singleton' (s.toList.map Char.toNat), List.flatMap_map]
  refine List.flatMap_congr fun c hc => ?_
  have hlt : c.toNat < 0x10000 := Nat.lt_trans (h c hc) (by decide)
  rw [encodeUnit, if_pos hlt, List.map_singleton, toNat_unit hlt]

theorem map_toNat_lt_iff (xs ys : List Char) : xs.map Char.toNat < ys.map Char.toNat ↔ xs < ys := by
  induction xs generalizing ys with
  | nil =>
    cases ys with
    | nil => exact iff_of_false (lt_irrefl _) (lt_irrefl _)
    | cons y ys => exact iff_of_true (List.nil_lt_cons _ _) (List.nil_lt_cons _ _)
  | cons x xs ih =>
    cases ys with
    | nil => exact iff_of_false (List.not_lt_nil _) (List.not_lt_nil _)
    | cons y ys =>
      rw [List.map_cons, List.map_cons, List.cons_lt_cons_iff, List.cons_lt_cons_iff, ih, Char.toNat_inj]
      exact or_congr_left Iff.rfl

/-- Keys of ASCII characters have one order, by units and by bytes. -/
theorem unitsLE_iff_le {a b : String} (ha : ∀ c ∈ a.toList, c.toNat < 128) (hb : ∀ c ∈ b.toList, c.toNat < 128) :
    UnitsLE a b ↔ a ≤ b := by
  have hle : UnitsLE a b ↔ ¬((units b).map UInt16.toNat < (units a).map UInt16.toNat) := (not_lt (α := List Nat)).symm
  rw [hle, units_ascii ha, units_ascii hb, map_toNat_lt_iff, ← String.lt_iff_toList_lt, not_lt]

end Omapkg.Server.Reconciliation
