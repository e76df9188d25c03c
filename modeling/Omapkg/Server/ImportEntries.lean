import Mathlib.Data.String.Basic
import Omapkg.Lib.Paging
import Omapkg.Lib.Utf
import Omapkg.Server.Arch
/-!
# Import entries

`listImportEntries` of `src/src/lib/server/catalog-imports.ts`: the captured packages of an
import, fifty at a time. The rows are ordered by source and name, and the cursor is one text of both.
-/

namespace Omapkg.Server.CatalogImports

open Utf Arch

/-! ## Rows -/

inductive ImportDisposition where
  | unreviewed | linked | replacement | blocked | excluded
  deriving DecidableEq, Repr

def ImportDisposition.text : ImportDisposition → String
  | .unreviewed => "unreviewed"
  | .linked => "linked"
  | .replacement => "replacement"
  | .blocked => "blocked"
  | .excluded => "excluded"

/-- A row of `catalog_import_entries`. -/
structure ImportEntryRow where
  importId : String
  sourceId : String
  name : String
  pkgbase : String
  architecture : String
  targetArchitecture : String
  collection : String
  entryJson : String
  entrySha256 : String
  disposition : ImportDisposition
  reason : Option String
  deriving DecidableEq

def isSourceChar (c : Char) : Bool := isLowerAlnum c || "._-".toList.contains c

/-- `^[a-z0-9][a-z0-9._-]{0,95}$`. -/
def isSourceId (s : List Char) : Bool := isWord isLowerAlnum isSourceChar 95 s

/-- The table's rows as the validators of an import admit them, by its primary key. -/
structure EntriesOk (table : List ImportEntryRow) : Prop where
  keys : (table.map fun r => (r.importId, r.sourceId, r.name)).Nodup
  sources : ∀ r ∈ table, isSourceId r.sourceId.toList = true
  names : ∀ r ∈ table, isPackageName r.name.toList = true

/-! ## `LIKE` -/

/-- Letters of ASCII are the same in either case. -/
def likeFold (c : Char) : Char := if 'A' ≤ c ∧ c ≤ 'Z' then Char.ofNat (c.toNat + 32) else c

/-- `LIKE` with the escape `\\`. -/
def likeMatch : List Char → List Char → Bool
  | [], t => t.isEmpty
  | '%' :: p, t => t.tails.any (likeMatch p)
  | '\\' :: c :: p, t =>
    match t with
    | [] => false
    | d :: t => likeFold c = likeFold d && likeMatch p t
  | ['\\'], _ => false
  | '_' :: p, t =>
    match t with
    | [] => false
    | _ :: t => likeMatch p t
  | c :: p, t =>
    match t with
    | [] => false
    | d :: t => likeFold c = likeFold d && likeMatch p t

/-- A pattern ends where its text does, at the first NUL. -/
def sqlLike (pattern text : String) : Bool := likeMatch (pattern.toList.takeWhile (· ≠ '\x00')) text.toList

/-- `replace(/[\\%_]/g, '\\$&')`. -/
def escapeLike (c : Char) : List Char := if c = '\\' ∨ c = '%' ∨ c = '_' then ['\\', c] else [c]

def searchPattern (search : Option String) : String :=
  String.ofList ('%' :: (toText ((units (search.getD "")).take 100)).toList.flatMap escapeLike ++ ['%'])

/-! ## Listing -/

/-- `source_id || '/' || name`. -/
def cursor (r : ImportEntryRow) : String := r.sourceId ++ "/" ++ r.name

/-- `ORDER BY source_id, name`. -/
def rowLe (a b : ImportEntryRow) : Bool := a.sourceId < b.sourceId || (a.sourceId = b.sourceId && a.name ≤ b.name)

/-- The entries of an import that a search and a disposition ask for. -/
def asked (importId : String) (search disposition : Option String) (r : ImportEntryRow) : Bool :=
  r.importId = importId && sqlLike (searchPattern search) r.name &&
    (disposition.getD "" = "" || r.disposition.text = disposition.getD "")

def listImportEntries (table : List ImportEntryRow) (importId : String) (search disposition after : Option String) :
    List ImportEntryRow :=
  ((table.filter fun r => asked importId search disposition r && decide (after.getD "" < cursor r)).mergeSort rowLe).take 50

/-- Lists page after page, each after the last row of the one before, until a page is empty. -/
def listAll (table : List ImportEntryRow) (importId : String) (search disposition : Option String) :
    Nat → String → Option (List ImportEntryRow)
  | 0, _ => none
  | fuel + 1, after =>
    let page := listImportEntries table importId search disposition (some after)
    match page.getLast? with
    | none => some []
    | some r => (listAll table importId search disposition fuel (cursor r)).map (page ++ ·)

/-- From the empty cursor on, every entry that is asked for comes once, and then an empty page. -/
def ListsAll (table : List ImportEntryRow) (importId : String) (search disposition : Option String) : Prop :=
  ∃ fuel out, listAll table importId search disposition fuel "" = some out ∧
    out.Perm (table.filter (asked importId search disposition))

/-- A source id goes on after another with a character that comes before the slash. -/
def Extends (s t : String) : Prop := ∃ c rest, t.toList = s.toList ++ c :: rest ∧ (c = '-' ∨ c = '.')

/-- The entries that are asked for, in order. -/
def ordered (table : List ImportEntryRow) (importId : String) (search disposition : Option String) : List ImportEntryRow :=
  (table.filter (asked importId search disposition)).mergeSort rowLe

/-- No entry that ends a page, fifty entries or the last of all, has an entry before it whose
source's id its own extends, or one after it whose source's id extends its own. -/
def PagesApart (rows : List ImportEntryRow) : Prop :=
  ∀ before r after, rows = before ++ r :: after → (before.length + 1) % 50 = 0 ∨ after = [] →
    (∀ x ∈ before, ¬Extends x.sourceId r.sourceId) ∧ ∀ y ∈ after, ¬Extends r.sourceId y.sourceId

/-! ## The order of cursors -/

theorem isSourceId_chars {s : List Char} (h : isSourceId s = true) : ∀ c ∈ s, isSourceChar c = true := by
  rcases s with _ | ⟨a, s⟩
  · exact fun c hc => absurd hc List.not_mem_nil
  · simp only [isSourceId, isWord, Bool.and_eq_true, List.all_eq_true] at h
    intro c hc
    rcases List.mem_cons.mp hc with rfl | hc
    · rw [isSourceChar, h.1.1, Bool.true_or]
    · exact h.1.2 c hc

/-- Of the characters of a source's id, a slash comes after the dash and the dot only. -/
theorem isSourceChar_slash {c : Char} (h : isSourceChar c = true) : c ≠ '/' ∧ (c < '/' ↔ c = '-' ∨ c = '.') := by
  have hcases : (('a' ≤ c ∧ c ≤ 'z') ∨ ('0' ≤ c ∧ c ≤ '9')) ∨ c = '.' ∨ c = '_' ∨ c = '-' := by
    simpa [isSourceChar, isLowerAlnum] using h
  have hlarge : '/' < c → c ≠ '/' ∧ (c < '/' ↔ c = '-' ∨ c = '.') := fun hlt =>
    ⟨ne_of_gt hlt, iff_of_false (lt_asymm hlt) (by rintro (rfl | rfl) <;> revert hlt <;> decide)⟩
  rcases hcases with (⟨ha, -⟩ | ⟨h0, -⟩) | rfl | rfl | rfl
  · exact hlarge (lt_of_lt_of_le (by decide) ha)
  · exact hlarge (lt_of_lt_of_le (by decide) h0)
  · decide
  · decide
  · decide

/-- Of two sources in order, the cursors are in order unless the second goes on after the first with
what comes before a slash. -/
theorem slash_lt_iff {s t : List Char} (n m : List Char) (ht : ∀ c ∈ t, c ≠ '/') (h : s < t) :
    s ++ '/' :: n < t ++ '/' :: m ↔ ¬∃ c rest, t = s ++ c :: rest ∧ c < '/' := by
  induction s generalizing t with
  | nil =>
    rcases t with _ | ⟨c, t⟩
    · exact absurd h (lt_irrefl _)
    · have hc := ht c List.mem_cons_self
      rw [List.nil_append, List.cons_append, List.cons_lt_cons_iff]
      constructor
      · rintro (hlt | ⟨heq, -⟩) ⟨c', rest, heq', hlt'⟩
        · obtain rfl := (List.cons.inj heq').1
          exact lt_asymm hlt hlt'
        · exact hc heq.symm
      · intro hne
        exact .inl (lt_of_le_of_ne (not_lt.mp fun hlt => hne ⟨c, t, rfl, hlt⟩) (Ne.symm hc))
  | cons a s ih =>
    rcases t with _ | ⟨b, t⟩
    · exact absurd h (List.not_lt_nil _)
    · rw [List.cons_append, List.cons_append, List.cons_lt_cons_iff]
      rcases List.cons_lt_cons_iff.mp h with hlt | ⟨rfl, hlt⟩
      · refine iff_of_true (.inl hlt) ?_
        rintro ⟨c, rest, heq, -⟩
        exact (ne_of_lt hlt) (List.cons.inj heq).1.symm
      · have hrec := ih (fun c hc => ht c (List.mem_cons_of_mem _ hc)) hlt
        constructor
        · rintro (hlt' | ⟨-, hlt'⟩)
          · exact absurd hlt' (lt_irrefl _)
          · rintro ⟨c, rest, heq, hc⟩
            exact hrec.mp hlt' ⟨c, rest, (List.cons.inj heq).2, hc⟩
        · intro hne
          refine .inr ⟨rfl, hrec.mpr fun ⟨c, rest, heq, hc⟩ => hne ⟨c, rest, ?_, hc⟩⟩
          rw [heq, List.cons_append]

theorem cursor_toList (r : ImportEntryRow) : (cursor r).toList = r.sourceId.toList ++ '/' :: r.name.toList := by
  simp [cursor]

theorem source_no_slash {s : List Char} (h : isSourceId s = true) : '/' ∉ s := fun hc =>
  (isSourceChar_slash (isSourceId_chars h _ hc)).1 rfl

theorem name_no_slash {s : List Char} (h : isPackageName s = true) : '/' ∉ s := by
  rcases s with _ | ⟨a, s⟩
  · exact List.not_mem_nil
  · simp only [isPackageName, isWord, Bool.and_eq_true, List.all_eq_true] at h
    intro hc
    rcases List.mem_cons.mp hc with rfl | hc
    · exact absurd h.1.1 (by decide)
    · exact absurd (h.1.2 _ hc) (by decide)

/-- A row is found by its cursor. -/
theorem cursor_inj {a b : ImportEntryRow} (hs : isSourceId a.sourceId.toList = true) (hn : isPackageName a.name.toList = true)
    (h : cursor a = cursor b) : (a.sourceId, a.name) = (b.sourceId, b.name) := by
  have hlists := congrArg String.toList h
  rw [cursor_toList, cursor_toList] at hlists
  have hparts := (List.append_cons_inj_of_notMem (source_no_slash hs) (name_no_slash hn)).mp hlists
  rw [String.toList_injective hparts.1, String.toList_injective hparts.2.2]

/-- Rows in order have their cursors in order unless the second's source goes on after the first's. -/
theorem cursor_lt_iff {a b : ImportEntryRow} (hb : isSourceId b.sourceId.toList = true)
    (hle : rowLe a b = true) (hne : (a.sourceId, a.name) ≠ (b.sourceId, b.name)) :
    cursor a < cursor b ↔ ¬Extends a.sourceId b.sourceId := by
  rw [String.lt_iff_toList_lt, cursor_toList, cursor_toList]
  simp only [rowLe, Bool.or_eq_true, Bool.and_eq_true, decide_eq_true_eq] at hle
  rcases hle with hlt | ⟨heq, hname⟩
  · rw [slash_lt_iff _ _ (fun c hc => (isSourceChar_slash (isSourceId_chars hb c hc)).1) (String.lt_iff_toList_lt.mp hlt)]
    refine not_congr (exists₂_congr fun c rest => and_congr_right fun hsplit => ?_)
    have hc : c ∈ b.sourceId.toList := hsplit ▸ List.mem_append_right _ List.mem_cons_self
    exact (isSourceChar_slash (isSourceId_chars hb c hc)).2
  · have hname' : a.name < b.name := lt_of_le_of_ne hname fun h => hne (by rw [heq, h])
    rw [heq]
    refine iff_of_true ?_ ?_
    · exact List.append_left_lt (List.cons_lt_cons_iff.mpr (.inr ⟨rfl, String.lt_iff_toList_lt.mp hname'⟩))
    · rintro ⟨c, rest, hsplit, -⟩
      have := congrArg List.length hsplit
      simp at this

/-! ## Pages of the ordered entries -/

theorem rowLe_trans (a b c : ImportEntryRow) (hab : rowLe a b = true) (hbc : rowLe b c = true) : rowLe a c = true := by
  simp only [rowLe, Bool.or_eq_true, Bool.and_eq_true, decide_eq_true_eq] at *
  rcases hab with hab | ⟨hab, hab'⟩ <;> rcases hbc with hbc | ⟨hbc, hbc'⟩
  · exact .inl (lt_trans hab hbc)
  · exact .inl (hbc ▸ hab)
  · exact .inl (hab ▸ hbc)
  · exact .inr ⟨hab.trans hbc, le_trans hab' hbc'⟩

theorem rowLe_total (a b : ImportEntryRow) : (rowLe a b || rowLe b a) = true := by
  simp only [rowLe, Bool.or_eq_true, Bool.and_eq_true, decide_eq_true_eq]
  rcases lt_trichotomy a.sourceId b.sourceId with h | h | h
  · exact .inl (.inl h)
  · rcases le_total a.name b.name with hn | hn
    · exact .inl (.inr ⟨h, hn⟩)
    · exact .inr (.inr ⟨h.symm, hn⟩)
  · exact .inr (.inl h)

theorem rowLe_antisymm {a b : ImportEntryRow} (hab : rowLe a b = true) (hba : rowLe b a = true) :
    (a.sourceId, a.name) = (b.sourceId, b.name) := by
  simp only [rowLe, Bool.or_eq_true, Bool.and_eq_true, decide_eq_true_eq] at hab hba
  rcases hab with hab | ⟨hs, hn⟩ <;> rcases hba with hba | ⟨hs', hn'⟩
  · exact absurd hba (lt_asymm hab)
  · exact absurd hs' (ne_of_gt hab)
  · exact absurd hs (ne_of_gt hba)
  · rw [hs, le_antisymm hn hn']

section
variable {table : List ImportEntryRow} (h : EntriesOk table) {importId : String} {search disposition : Option String}

include h

theorem EntriesOk.eq_of_key {a b : ImportEntryRow} (ha : a ∈ table.filter (asked importId search disposition))
    (hb : b ∈ table.filter (asked importId search disposition)) (hkey : (a.sourceId, a.name) = (b.sourceId, b.name)) : a = b := by
  obtain ⟨ha, hasked⟩ := List.mem_filter.mp ha
  obtain ⟨hb, hasked'⟩ := List.mem_filter.mp hb
  have hid : a.importId = importId ∧ b.importId = importId := by
    simp only [asked, Bool.and_eq_true, decide_eq_true_eq] at hasked hasked'
    exact ⟨hasked.1.1, hasked'.1.1⟩
  refine List.inj_on_of_nodup_map h.keys ha hb ?_
  rw [hid.1, hid.2, hkey]

/-- What a page is taken from is what the ordered entries have after the cursor. -/
theorem listImportEntries_eq (after : String) :
    listImportEntries table importId search disposition (some after) =
      ((ordered table importId search disposition).filter fun r => after < cursor r).take 50 := by
  unfold listImportEntries ordered
  rw [Option.getD_some, show (table.filter fun r => asked importId search disposition r && decide (after < cursor r)) =
    (table.filter (asked importId search disposition)).filter fun r => decide (after < cursor r) by
      rw [List.filter_filter]
      exact List.filter_congr fun r _ => Bool.and_comm _ _]
  generalize hrows : table.filter (asked importId search disposition) = rows
  refine congrArg (List.take 50) (List.Perm.eq_of_pairwise ?_
    (List.pairwise_mergeSort rowLe_trans rowLe_total _ : List.Pairwise (fun a b => rowLe a b = true) _) ((List.pairwise_mergeSort rowLe_trans rowLe_total _).filter _)
    ((List.mergeSort_perm _ _).trans ((List.mergeSort_perm _ _).symm.filter _)))
  intro a b ha hb hab hba
  have ha' : a ∈ rows := List.mem_of_mem_filter (List.mem_mergeSort.mp ha)
  have hb' : b ∈ rows := List.mem_mergeSort.mp (List.mem_of_mem_filter hb)
  subst hrows
  exact h.eq_of_key ha' hb' (rowLe_antisymm hab hba)

theorem listAll_eq (fuel : Nat) (after : String) :
    listAll table importId search disposition fuel after =
      Paging.pages 50 cursor fuel ((ordered table importId search disposition).filter fun r => after < cursor r) := by
  induction fuel generalizing after with
  | zero => rfl
  | succ fuel ih =>
    unfold listAll Paging.pages
    simp only [listImportEntries_eq h]
    cases hlast : (((ordered table importId search disposition).filter fun r => after < cursor r).take 50).getLast? with
    | none => rfl
    | some r =>
      have hr := List.mem_of_mem_take (List.mem_of_getLast? hlast)
      have hafter : after < cursor r := by simpa using (List.mem_filter.mp hr).2
      simp only
      rw [ih, List.filter_filter]
      congr 2
      refine List.filter_congr fun x _ => ?_
      rw [Bool.eq_iff_iff, Bool.and_eq_true, decide_eq_true_eq, decide_eq_true_eq]
      exact ⟨fun hlt => ⟨hlt, lt_trans hafter hlt⟩, And.left⟩

theorem ordered_nodup : (ordered table importId search disposition).Nodup :=
  (List.mergeSort_perm _ _).nodup_iff.mpr ((List.Nodup.of_map _ h.keys).filter _)

theorem ordered_pairwise : (ordered table importId search disposition).Pairwise fun a b =>
    cursor a < cursor b ↔ ¬Extends a.sourceId b.sourceId := by
  have hsorted : (ordered table importId search disposition).Pairwise fun a b => rowLe a b = true :=
    List.pairwise_mergeSort rowLe_trans rowLe_total _
  refine (hsorted.and (ordered_nodup h)).imp_of_mem fun {a b} ha hb hab => ?_
  have ha' := List.mem_mergeSort.mp ha
  have hb' := List.mem_mergeSort.mp hb
  exact cursor_lt_iff (h.sources b (List.mem_of_mem_filter hb')) hab.1
    fun hkey => hab.2 (h.eq_of_key ha' hb' hkey)

theorem ordered_cursor_ne : (ordered table importId search disposition).Pairwise fun a b => cursor a ≠ cursor b := by
  refine (ordered_nodup h).imp_of_mem fun {a b} ha hb hne heq => hne ?_
  have ha' := List.mem_mergeSort.mp ha
  have hb' := List.mem_mergeSort.mp hb
  exact h.eq_of_key ha' hb'
    (cursor_inj (h.sources a (List.mem_of_mem_filter ha')) (h.names a (List.mem_of_mem_filter ha')) heq)

/-- The cursors go as the rows do where no page ends among sources that extend each other. -/
theorem cut_iff : Paging.Cut 50 cursor (ordered table importId search disposition) ↔
    PagesApart (ordered table importId search disposition) := by
  refine forall_congr' fun before => forall_congr' fun r => forall_congr' fun after => forall_congr' fun hsplit =>
    forall_congr' fun _ => ?_
  have horder := (ordered_pairwise h).and (ordered_cursor_ne h) (l := ordered table importId search disposition)
  rw [hsplit, List.pairwise_append, List.pairwise_cons] at horder
  refine and_congr (forall₂_congr fun x hx => ?_) (forall₂_congr fun y hy => (horder.2.1.1 y hy).1)
  obtain ⟨hlt, hne⟩ := horder.2.2 x hx r List.mem_cons_self
  rw [← hlt]
  exact ⟨fun hle => lt_of_le_of_ne hle hne, le_of_lt⟩

end

theorem listsAll_iff_cut (table : List ImportEntryRow) (h : EntriesOk table) (importId : String)
    (search disposition : Option String) : ListsAll table importId search disposition ↔
      Paging.Cut 50 cursor (ordered table importId search disposition) := by
  have hempty : ((ordered table importId search disposition).filter fun r => "" < cursor r) =
      ordered table importId search disposition :=
    List.filter_eq_self.mpr fun r _ => by
      rw [decide_eq_true_eq, String.lt_iff_toList_lt, cursor_toList]
      cases r.sourceId.toList <;> exact List.nil_lt_cons _ _
  have hperm : (ordered table importId search disposition).Perm (table.filter (asked importId search disposition)) :=
    List.mergeSort_perm _ _
  constructor
  · rintro ⟨fuel, out, hout, hall⟩
    rw [listAll_eq h, hempty] at hout
    exact (Paging.pages_perm_iff (by decide) (ordered_nodup h) hout).mp (hall.trans hperm.symm)
  · intro hcut
    have hsome : (Paging.pages 50 cursor _ (ordered table importId search disposition)).isSome :=
      Paging.pages_isSome (Nat.lt_succ_self _)
    obtain ⟨out, hout⟩ := Option.isSome_iff_exists.mp hsome
    refine ⟨(ordered table importId search disposition).length + 1, out, ?_,
      ((Paging.pages_perm_iff (by decide) (ordered_nodup h) hout).mpr hcut).trans hperm⟩
    rw [listAll_eq h, hempty, hout]

/-- Listing by cursor gives every entry once just where no page ends among sources
of which one's id goes on after the other's. -/
theorem listsAll_iff (table : List ImportEntryRow) (h : EntriesOk table) (importId : String) (search disposition : Option String) :
    ListsAll table importId search disposition ↔ PagesApart (ordered table importId search disposition) :=
  (listsAll_iff_cut table h importId search disposition).trans (cut_iff h)

/-! ## Two sources of one entry each -/

def entryOf (sourceId : String) : ImportEntryRow :=
  ⟨"i", sourceId, "x", "x", "x86_64", "x86_64", "extra", "{}", "", .unreviewed, none⟩

theorem entriesOk_pair {s t : String} (hs : isSourceId s.toList = true) (ht : isSourceId t.toList = true) (hne : s ≠ t) :
    EntriesOk [entryOf s, entryOf t] where
  keys := by simp [entryOf, hne]
  sources := by simp [entryOf, hs, ht]
  names r hr := by
    have hx : isPackageName "x".toList = true := by decide
    simp only [List.mem_cons, List.not_mem_nil, or_false] at hr
    rcases hr with rfl | rfl <;> exact hx

theorem ordered_pair {s t : String} (h : s < t) : ordered [entryOf s, entryOf t] "i" none none = [entryOf s, entryOf t] := by
  have hlike : sqlLike (searchPattern none) "x" = true := by decide
  have hall : [entryOf s, entryOf t].filter (asked "i" none none) = [entryOf s, entryOf t] := by
    simp [entryOf, asked, hlike]
  rw [ordered, hall]
  have hle : rowLe (entryOf s) (entryOf t) = true := Bool.or_eq_true _ _ |>.mpr (.inl (decide_eq_true h))
  exact List.mergeSort_of_pairwise (List.pairwise_pair.mpr hle)

/-- The entry of `a` comes again after the one of `a-b`. -/
theorem listsAll_again : ¬ListsAll [entryOf "a", entryOf "a-b"] "i" none none := by
  rw [listsAll_iff_cut _ (entriesOk_pair (by decide) (by decide) (by decide)), ordered_pair (by decide)]
  intro hcut
  have hle := (hcut [entryOf "a"] (entryOf "a-b") [] rfl (.inr rfl)).1 (entryOf "a") (by simp)
  exact absurd hle (by decide)

theorem listsAll_pair : ListsAll [entryOf "a", entryOf "b"] "i" none none := by
  refine (listsAll_iff _ (entriesOk_pair (by decide) (by decide) (by decide)) "i" none none).mpr ?_
  rw [ordered_pair (by decide)]
  have hshort {s t : ImportEntryRow} (hs : s ∈ [entryOf "a", entryOf "b"]) (ht : t ∈ [entryOf "a", entryOf "b"]) :
      ¬Extends s.sourceId t.sourceId := by
    rintro ⟨c, rest, hsplit, -⟩
    have hlen := congrArg List.length hsplit
    simp only [List.mem_cons, List.not_mem_nil, or_false] at hs ht
    rcases hs with rfl | rfl <;> rcases ht with rfl | rfl <;> simp [entryOf] at hlen
  intro before r after hsplit _
  exact ⟨fun x hx => hshort (hsplit ▸ List.mem_append_left _ hx) (hsplit ▸ by simp),
    fun y hy => hshort (hsplit ▸ by simp) (hsplit ▸ List.mem_append_right _ (List.mem_cons_of_mem _ hy))⟩

end Omapkg.Server.CatalogImports
