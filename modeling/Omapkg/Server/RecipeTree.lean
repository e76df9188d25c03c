import Omapkg.Server.RecipeCapture
/-!
# The tree of a recipe

What `verifyRecipeCapture` accepts against the objects of a repository: the files of a
capture are those of the recipe directory in the tree of its commit.
-/

namespace Omapkg.Server.Recipe

open Utf Fallible Hash

/-! ## Tree objects -/

/-- An entry of a tree object as its bytes have it. -/
structure RawEntry where
  mode : Bytes
  name : Bytes
  id : Bytes

def RawEntry.bytes (raw : RawEntry) : Bytes := raw.mode ++ 0x20 :: (raw.name ++ 0 :: raw.id)

structure RawEntry.Formed (raw : RawEntry) : Prop where
  mode : 0x20 ∉ raw.mode
  name : 0 ∉ raw.name
  id : raw.id.length = 20

/-- The object in hex. -/
def RawEntry.sha (raw : RawEntry) : String := String.ofList (raw.id.flatMap hexByte)

/-- The bytes of a tree object with some entries. -/
structure IsTree (raws : List RawEntry) (bytes : Bytes) : Prop where
  formed : ∀ raw ∈ raws, raw.Formed
  bytes : bytes = raws.flatMap RawEntry.bytes

/-- What `parseTree` makes of an entry. -/
structure Reads (raw : RawEntry) (entry : TreeEntry) : Prop where
  mode : textDecode raw.mode = .ok entry.mode
  name : textDecode raw.name = .ok entry.name
  sha : entry.sha = raw.sha

/-- The names of a tree: none is empty or has a slash, and no two are one. -/
structure NamesFormed (names : List JsString) (entries : List TreeEntry) : Prop where
  plain : ∀ entry ∈ entries, entry.name ≠ [] ∧ slash ∉ entry.name ∧ entry.name ∉ names
  nodup : (entries.map (·.name)).Nodup

theorem split_at_first {α : Type} [DecidableEq α] {x : α} {l : List α} {i : Nat} (h : l.idxOf? x = some i) :
    x ∉ l.take i ∧ l = l.take i ++ x :: l.drop (i + 1) := by
  induction l generalizing i with
  | nil => cases h
  | cons a l ih =>
    rw [List.idxOf?_cons] at h
    split at h
    · next hsame =>
      cases h
      obtain rfl := beq_iff_eq.mp hsame
      simp
    · next hother =>
      obtain ⟨n, hn, rfl⟩ := Option.map_eq_some_iff.mp h
      obtain ⟨hbefore, hsplit⟩ := ih hn
      refine ⟨?_, ?_⟩
      · rw [List.take_succ_cons, List.mem_cons, not_or]
        exact ⟨fun hx => hother (by simp [hx]), hbefore⟩
      · rw [List.take_succ_cons, List.drop_succ_cons, List.cons_append, ← hsplit]

theorem parseTreeFrom_ok {fuel : Nat} {bytes : Bytes} {names : List JsString} {entries : List TreeEntry}
    (h : parseTreeFrom fuel bytes names = .ok entries) :
    ∃ raws, IsTree raws bytes ∧ List.Forall₂ Reads raws entries ∧ NamesFormed names entries := by
  induction fuel generalizing bytes names entries with
  | zero =>
    cases bytes with
    | nil =>
      cases h
      exact ⟨[], ⟨by simp, rfl⟩, .nil, ⟨by simp, .nil⟩⟩
    | cons b bytes => cases h
  | succ fuel ih =>
    cases bytes with
    | nil =>
      cases h
      exact ⟨[], ⟨by simp, rfl⟩, .nil, ⟨by simp, .nil⟩⟩
    | cons b bytes =>
      simp only [parseTreeFrom] at h
      generalize b :: bytes = bytes at h ⊢
      split at h
      · cases h
      · next space hspace =>
        split at h
        · cases h
        · next stop hstop =>
          split at h
          · cases h
          · next hlength =>
            obtain ⟨mode, hmode, h⟩ := bind_ok.mp h
            obtain ⟨name, hname, h⟩ := bind_ok.mp h
            split at h
            · cases h
            · next hplain =>
              obtain ⟨rest, hrest, h⟩ := bind_ok.mp h
              cases h
              -- the entry that was read stands before those of the rest
              obtain ⟨raws, htree, hreads, hnames⟩ := ih hrest
              obtain ⟨hmodeFormed, hmodeSplit⟩ := split_at_first hspace
              obtain ⟨hnameFormed, hnameSplit⟩ := split_at_first hstop
              generalize bytes.drop (space + 1) = after at *
              generalize bytes.take space = mode' at *
              generalize after.take stop = name' at *
              have hid : ((after.drop (stop + 1)).take 20).length = 20 := by
                rw [List.length_take, List.length_drop]
                omega
              rw [not_or, not_or] at hplain
              refine ⟨⟨mode', name', (after.drop (stop + 1)).take 20⟩ :: raws, ⟨?_, ?_⟩, .cons ⟨hmode, hname, rfl⟩ hreads, ?_, ?_⟩
              · exact List.forall_mem_cons.mpr ⟨⟨hmodeFormed, hnameFormed, hid⟩, htree.formed⟩
              · have hrest : after.drop (stop + 1) = (after.drop (stop + 1)).take 20 ++ after.drop (stop + 21) := by
                  refine (List.take_append_drop 20 (after.drop (stop + 1))).symm.trans ?_
                  rw [List.drop_drop]
                calc bytes = mode' ++ 0x20 :: (name' ++ 0 :: after.drop (stop + 1)) := by rw [← hnameSplit, ← hmodeSplit]
                  _ = _ := by
                    rw [List.flatMap_cons, ← htree.bytes, RawEntry.bytes]
                    simp only [List.append_assoc, List.cons_append]
                    rw [← hrest]
              · refine List.forall_mem_cons.mpr ⟨⟨hplain.1, hplain.2.1, hplain.2.2⟩, fun entry hentry => ?_⟩
                obtain ⟨hne, hslash, hnew⟩ := hnames.plain entry hentry
                exact ⟨hne, hslash, fun hmem => hnew (List.mem_append_left _ hmem)⟩
              · refine List.nodup_cons.mpr ⟨fun hmem => ?_, hnames.nodup⟩
                obtain ⟨entry, hentry, hsame⟩ := List.mem_map.mp hmem
                exact (hnames.plain entry hentry).2.2 (List.mem_append_right _ (by simp [hsame]))

theorem parseTree_ok {bytes : Bytes} {entries : List TreeEntry} (h : parseTree bytes = .ok entries) :
    ∃ raws, IsTree raws bytes ∧ List.Forall₂ Reads raws entries ∧ NamesFormed [] entries := parseTreeFrom_ok h

theorem first_unique {α : Type} [DecidableEq α] {x : α} {as as' bs bs' : List α} (h : x ∉ as) (h' : x ∉ as')
    (heq : as ++ x :: bs = as' ++ x :: bs') : as = as' ∧ bs = bs' := by
  have hfirst : as = as' := by
    rw [← takeWhile_ne_append h bs, ← takeWhile_ne_append h' bs', heq]
  subst hfirst
  exact ⟨rfl, (List.cons.inj (List.append_cancel_left heq)).2⟩

/-- Bytes are a tree in one way only. -/
theorem isTree_unique {raws raws' : List RawEntry} {bytes : Bytes} (h : IsTree raws bytes) (h' : IsTree raws' bytes) : raws = raws' := by
  induction raws generalizing raws' bytes with
  | nil =>
    cases raws' with
    | nil => rfl
    | cons raw' raws' =>
      have hbytes := h.bytes.symm.trans h'.bytes
      simp [RawEntry.bytes] at hbytes
  | cons raw raws ih =>
    cases raws' with
    | nil =>
      have hbytes := h'.bytes.symm.trans h.bytes
      simp [RawEntry.bytes] at hbytes
    | cons raw' raws' =>
      obtain ⟨hraw, hraws⟩ := List.forall_mem_cons.mp h.formed
      obtain ⟨hraw', hraws'⟩ := List.forall_mem_cons.mp h'.formed
      have hbytes := h.bytes.symm.trans h'.bytes
      simp only [List.flatMap_cons, RawEntry.bytes, List.append_assoc, List.cons_append] at hbytes
      -- a mode ends at its first blank, a name at its first zero, and an id has 20 bytes
      obtain ⟨hmode, hbytes⟩ := first_unique hraw.mode hraw'.mode hbytes
      obtain ⟨hname, hbytes⟩ := first_unique hraw.name hraw'.name hbytes
      obtain ⟨hid, hrest⟩ := List.append_inj hbytes (hraw.id.trans hraw'.id.symm)
      obtain rfl : raws = raws' := ih ⟨hraws, rfl⟩ ⟨hraws', hrest⟩
      cases raw
      cases raw'
      simp_all

/-! ## The walk over the supplied trees -/

section

variable {trees : Trees}

def entriesOf (trees : Trees) (sha : String) : Option (List TreeEntry) := (trees.find? (·.1 = sha)).map (·.2)

/-- The entries of a directory that are no directories, those below it included. -/
inductive EntryIn (trees : Trees) : String → JsString → TreeEntry → Prop
  | here {sha : String} {entries : List TreeEntry} {entry : TreeEntry} : entriesOf trees sha = some entries →
    entry ∈ entries → entry.mode ≠ treeMode → EntryIn trees sha entry.name entry
  | under {sha : String} {entries : List TreeEntry} {entry file : TreeEntry} {path : JsString} :
    entriesOf trees sha = some entries → entry ∈ entries → entry.mode = treeMode → EntryIn trees entry.sha path file →
    EntryIn trees sha (entry.name ++ slash :: path) file

/-- A directory whose trees are all there. -/
inductive Supplied (trees : Trees) : String → Prop
  | intro {sha : String} {entries : List TreeEntry} : entriesOf trees sha = some entries →
    (∀ entry ∈ entries, entry.mode = treeMode → Supplied trees entry.sha) → Supplied trees sha

/-- A directory and those below it. -/
inductive TreeIn (trees : Trees) : String → String → Prop
  | self (sha : String) : TreeIn trees sha sha
  | under {sha below : String} {entries : List TreeEntry} {entry : TreeEntry} : entriesOf trees sha = some entries →
    entry ∈ entries → entry.mode = treeMode → TreeIn trees entry.sha below → TreeIn trees sha below

/-- What a part of the walk adds: the files of `P` under `pre`, and the trees of `U`. -/
structure Adds (pre : JsString) (P : JsString → TreeEntry → Prop) (U : String → Prop) (w w' : Walk) : Prop where
  sound : ∀ x ∈ w'.expected, x ∈ w.expected ∨ ∃ path, x.1 = pre ++ path ∧ P path x.2
  complete : ∀ path entry, P path entry → pre ++ path ∈ w'.expected.map (·.1)
  keeps : ∀ path ∈ w.expected.map (·.1), path ∈ w'.expected.map (·.1)
  keys : (w.expected.map (·.1)).Nodup → (w'.expected.map (·.1)).Nodup
  used : ∀ sha ∈ w'.used, sha ∈ w.used ∨ U sha
  usedNodup : w.used.Nodup → w'.used.Nodup

theorem Adds.refl (pre : JsString) (w : Walk) : Adds pre (fun _ _ => False) (fun _ => False) w w where
  sound _ h := .inl h
  complete _ _ h := h.elim
  keeps _ h := h
  keys h := h
  used _ h := .inl h
  usedNodup h := h

theorem Adds.trans {pre : JsString} {P Q : JsString → TreeEntry → Prop} {U V : String → Prop} {u v w : Walk}
    (h : Adds pre P U u v) (h' : Adds pre Q V v w) :
    Adds pre (fun path entry => P path entry ∨ Q path entry) (fun sha => U sha ∨ V sha) u w where
  sound x hx := by
    rcases h'.sound x hx with hx | ⟨path, hpath, hq⟩
    · exact (h.sound x hx).imp_right fun ⟨path, hpath, hp⟩ => ⟨path, hpath, .inl hp⟩
    · exact .inr ⟨path, hpath, .inr hq⟩
  complete path entry hpq := hpq.elim (fun hp => h'.keeps _ (h.complete path entry hp)) (h'.complete path entry)
  keeps path hpath := h'.keeps _ (h.keeps path hpath)
  keys hu := h'.keys (h.keys hu)
  used sha hsha := by
    rcases h'.used sha hsha with hsha | hv
    · exact (h.used sha hsha).imp_right .inl
    · exact .inr (.inr hv)
  usedNodup hu := h'.usedNodup (h.usedNodup hu)

/-- The same files and trees, said otherwise. -/
theorem Adds.congr {pre : JsString} {P Q : JsString → TreeEntry → Prop} {U V : String → Prop} {w w' : Walk}
    (h : Adds pre P U w w') (hfiles : ∀ path entry, P path entry ↔ Q path entry) (htrees : ∀ sha, U sha → V sha) :
    Adds pre Q V w w' where
  sound x hx := (h.sound x hx).imp_right fun ⟨path, hpath, hp⟩ => ⟨path, hpath, (hfiles _ _).mp hp⟩
  complete path entry hq := h.complete path entry ((hfiles _ _).mpr hq)
  keeps := h.keeps
  keys := h.keys
  used sha hsha := (h.used sha hsha).imp_right (htrees sha)
  usedNodup := h.usedNodup

/-- Files under a longer prefix. -/
theorem Adds.under {pre pre' : JsString} {P : JsString → TreeEntry → Prop} {U : String → Prop} {w w' : Walk}
    (h : Adds (pre ++ pre') P U w w') : Adds pre (fun path entry => ∃ rest, path = pre' ++ rest ∧ P rest entry) U w w' where
  sound x hx := (h.sound x hx).imp_right fun ⟨path, hpath, hp⟩ => ⟨pre' ++ path, by rw [hpath, List.append_assoc], path, rfl, hp⟩
  complete := by
    rintro _ entry ⟨path, rfl, hp⟩
    rw [← List.append_assoc]
    exact h.complete path entry hp
  keeps := h.keeps
  keys := h.keys
  used := h.used
  usedNodup := h.usedNodup

theorem set_adds (pre : JsString) (w : Walk) (name : JsString) (entry : TreeEntry) :
    Adds pre (fun path file => path = name ∧ file = entry) (fun _ => False) w (w.set (pre ++ name) entry) where
  sound x hx := by
    rcases List.mem_append.mp hx with hx | hx
    · exact .inl (List.mem_filter.mp hx).1
    · rw [List.mem_singleton.mp hx]
      exact .inr ⟨name, rfl, rfl, rfl⟩
  complete := by
    rintro _ _ ⟨rfl, rfl⟩
    simp [Walk.set]
  keeps path hpath := by
    obtain ⟨x, hx, rfl⟩ := List.mem_map.mp hpath
    by_cases hsame : x.1 = pre ++ name
    · simp [Walk.set, hsame]
    · exact List.mem_map.mpr ⟨x, List.mem_append_left _ (List.mem_filter.mpr ⟨hx, decide_eq_true hsame⟩), rfl⟩
  keys hkeys := by
    rw [Walk.set, List.map_append, List.nodup_append]
    refine ⟨(List.filter_sublist.map _).nodup hkeys, by simp, ?_⟩
    rintro _ hold _ hnew rfl
    obtain ⟨x, hx, hpath⟩ := List.mem_map.mp hold
    simp only [List.map_cons, List.map_nil, List.mem_singleton] at hnew
    exact of_decide_eq_true (List.mem_filter.mp hx).2 (hpath.trans hnew)
  used _ h := .inl h
  usedNodup h := h

theorem use_adds (pre : JsString) (w : Walk) (n : Nat) (sha : String) :
    Adds pre (fun _ _ => False) (fun s => s = sha) w ({ w with visitedDirectories := n }.use sha) where
  sound _ h := .inl h
  complete _ _ h := h.elim
  keeps _ h := h
  keys h := h
  used s hs := by
    simp only [Walk.use] at hs
    split at hs
    · exact .inl hs
    · simpa using hs
  usedNodup hw := by
    simp only [Walk.use]
    split
    · exact hw
    · next hnew => simpa [List.nodup_append] using ⟨hw, fun a ha hsame => hnew (by simpa using hsame ▸ ha)⟩

theorem tree_ok {sha : String} {w : Walk} {result : List TreeEntry × Walk} (h : Walk.tree trees sha w = .ok result) :
    entriesOf trees sha = some result.1 ∧ result.2 = w.use sha := by
  rw [Walk.tree] at h
  split at h
  · cases h
  · next entry hfind =>
    cases h
    exact ⟨by rw [entriesOf, hfind, Option.map_some], rfl⟩

/-- What one entry of a directory stands for: itself, or the files below it. -/
def Via (trees : Trees) (entry : TreeEntry) (path : JsString) (file : TreeEntry) : Prop :=
  if entry.mode = treeMode then ∃ rest, path = (entry.name ++ [slash]) ++ rest ∧ EntryIn trees entry.sha rest file
  else path = entry.name ∧ file = entry

/-- The trees that it leads to. -/
def TreeVia (trees : Trees) (entry : TreeEntry) (sha : String) : Prop := entry.mode = treeMode ∧ TreeIn trees entry.sha sha

/-- A walk over a directory went to all of it: its files were added, its trees used, and all are there. -/
structure Walked (trees : Trees) (sha : String) (pre : JsString) (w w' : Walk) : Prop where
  adds : Adds pre (EntryIn trees sha) (TreeIn trees sha) w w'
  supplied : Supplied trees sha

theorem recipeFilePath_ok {value path : JsString} (h : recipeFilePath value = .ok path) : path = value := by
  rw [recipeFilePath] at h
  split at h
  · exact (Except.ok.inj h).symm
  · cases h

/-- The body of the loop over the entries. -/
def walkEntry (trees : Trees) (fuel : Nat) (pre : JsString) (w : Walk) (entry : TreeEntry) : Except String Walk := do
  let path ← recipeFilePath (pre ++ entry.name)
  if entry.mode = treeMode then
    if 32 < (splitPath path).length then .error "Recipe tree is too deep"
    else walk trees fuel entry.sha (path ++ [slash]) w
  else if maxRecipeFiles ≤ w.expected.length then .error "Recipe tree has too many files"
  else .ok (w.set path entry)

/-- One entry, where a walk over a directory does what it should. -/
theorem walkEntry_adds {fuel : Nat} {pre : JsString} {w w' : Walk} {entry : TreeEntry}
    (ih : ∀ {sha : String} {pre : JsString} {w w' : Walk}, walk trees fuel sha pre w = .ok w' → Walked trees sha pre w w')
    (h : walkEntry trees fuel pre w entry = .ok w') :
    Adds pre (Via trees entry) (TreeVia trees entry) w w' ∧ (entry.mode = treeMode → Supplied trees entry.sha) := by
  obtain ⟨path, hpath, h⟩ := bind_ok.mp h
  obtain rfl := recipeFilePath_ok hpath
  split at h
  · next hmode =>
    split at h
    · cases h
    · rw [List.append_assoc] at h
      have hwalked := ih h
      refine ⟨hwalked.adds.under.congr (fun path file => ?_) fun sha hsha => ⟨hmode, hsha⟩, fun _ => hwalked.supplied⟩
      rw [Via, if_pos hmode]
  · next hmode =>
    split at h
    · cases h
    · cases h
      refine ⟨(set_adds pre w entry.name entry).congr (fun path file => ?_) fun _ h => h.elim, fun h => absurd h hmode⟩
      rw [Via, if_neg hmode]

/-- The loop over some entries. -/
theorem walkEntries_adds {fuel : Nat} {pre : JsString} {w w' : Walk} {entries : List TreeEntry}
    (ih : ∀ {sha : String} {pre : JsString} {w w' : Walk}, walk trees fuel sha pre w = .ok w' → Walked trees sha pre w w')
    (h : entries.foldlM (walkEntry trees fuel pre) w = .ok w') :
    Adds pre (fun path file => ∃ entry ∈ entries, Via trees entry path file)
        (fun sha => ∃ entry ∈ entries, TreeVia trees entry sha) w w' ∧
      ∀ entry ∈ entries, entry.mode = treeMode → Supplied trees entry.sha := by
  induction entries generalizing w with
  | nil =>
    cases h
    exact ⟨(Adds.refl pre _).congr (by simp) (by simp), by simp⟩
  | cons entry entries hentries =>
    rw [List.foldlM_cons] at h
    obtain ⟨u, hu, h⟩ := bind_ok.mp h
    obtain ⟨hadds, hsupplied⟩ := walkEntry_adds ih hu
    obtain ⟨hrest, hsupplied'⟩ := hentries h
    refine ⟨(hadds.trans hrest).congr (by simp) (by simp), ?_⟩
    exact List.forall_mem_cons.mpr ⟨hsupplied, hsupplied'⟩

theorem entryIn_iff {sha : String} {entries : List TreeEntry} (h : entriesOf trees sha = some entries) (path : JsString)
    (file : TreeEntry) : (∃ entry ∈ entries, Via trees entry path file) ↔ EntryIn trees sha path file := by
  constructor
  · rintro ⟨entry, hentry, hvia⟩
    rw [Via] at hvia
    split at hvia
    · next hmode =>
      obtain ⟨rest, rfl, hin⟩ := hvia
      rw [List.append_assoc]
      exact .under h hentry hmode hin
    · next hmode =>
      obtain ⟨rfl, rfl⟩ := hvia
      exact .here h hentry hmode
  · intro hin
    cases hin with
    | here hentries hentry hmode =>
      obtain rfl := Option.some.inj (h.symm.trans hentries)
      exact ⟨file, hentry, by rw [Via, if_neg hmode]; exact ⟨rfl, rfl⟩⟩
    | under hentries hentry hmode hin =>
      obtain rfl := Option.some.inj (h.symm.trans hentries)
      refine ⟨_, hentry, ?_⟩
      rw [Via, if_pos hmode]
      exact ⟨_, by simp, hin⟩

theorem walk_walked {fuel : Nat} {sha : String} {pre : JsString} {w w' : Walk} (h : walk trees fuel sha pre w = .ok w') :
    Walked trees sha pre w w' := by
  induction fuel generalizing sha pre w w' with
  | zero => cases h
  | succ fuel ih =>
    rw [walk] at h
    split at h
    · cases h
    · obtain ⟨⟨entries, u⟩, htree, h⟩ := bind_ok.mp h
      obtain ⟨hentries, rfl⟩ := tree_ok htree
      obtain ⟨hadds, hsupplied⟩ := walkEntries_adds (fun h => ih h) h
      refine ⟨?_, .intro hentries hsupplied⟩
      · refine ((use_adds pre w _ sha).trans hadds).congr (fun path file => ?_) fun s hs => ?_
        · rw [false_or]
          exact entryIn_iff hentries path file
        · rcases hs with rfl | ⟨entry, hentry, hmode, hin⟩
          · exact .self _
          · exact .under hentries hentry hmode hin

/-- The directory that some names lead to. -/
inductive DirIn (trees : Trees) : String → List JsString → String → Prop
  | nil (root : String) : DirIn trees root [] root
  | cons {root dir : String} {entries : List TreeEntry} {entry : TreeEntry} {parts : List JsString} :
    entriesOf trees root = some entries → entry ∈ entries → entry.mode = treeMode → DirIn trees entry.sha parts dir →
    DirIn trees root (entry.name :: parts) dir

/-- A directory above the one that some names lead to. -/
def Above (trees : Trees) (root : String) (parts : List JsString) (sha : String) : Prop :=
  ∃ front back, parts = front ++ back ∧ back ≠ [] ∧ DirIn trees root front sha ∧ entriesOf trees sha ≠ none

theorem findDirectory_ok {parts : List JsString} {root dir : String} {w w' : Walk}
    (h : findDirectory trees parts root w = .ok (dir, w')) :
    DirIn trees root parts dir ∧ w'.expected = w.expected ∧ (w.used.Nodup → w'.used.Nodup) ∧
      ∀ sha ∈ w'.used, sha ∈ w.used ∨ Above trees root parts sha := by
  induction parts generalizing root w with
  | nil =>
    cases h
    exact ⟨.nil _, rfl, id, fun _ h => .inl h⟩
  | cons part parts ih =>
    rw [findDirectory] at h
    obtain ⟨⟨entries, u⟩, htree, h⟩ := bind_ok.mp h
    obtain ⟨hentries, rfl⟩ := tree_ok htree
    dsimp only at h hentries
    split at h
    · cases h
    · next entry hfind =>
      obtain ⟨hdir, hexpected, hnodup, hused⟩ := ih h
      have hentry := List.mem_of_find?_eq_some hfind
      obtain ⟨rfl, hmode⟩ : entry.name = part ∧ entry.mode = treeMode := by simpa using List.find?_some hfind
      have hadds := use_adds [] w w.visitedDirectories root
      refine ⟨.cons hentries hentry hmode hdir, hexpected, fun hw => hnodup (hadds.usedNodup hw), fun sha hsha => ?_⟩
      rcases hused sha hsha with hsha | ⟨front, back, rfl, hback, hfront, hfound⟩
      · refine (hadds.used sha hsha).imp_right fun hsame => ?_
        rw [hsame]
        exact ⟨[], _, rfl, by simp, .nil _, by simp [hentries]⟩
      · exact .inr ⟨entry.name :: front, back, rfl, hback, .cons hentries hentry hmode hfront, hfound⟩

theorem Supplied.found {sha below : String} (h : Supplied trees sha) (hin : TreeIn trees sha below) :
    entriesOf trees below ≠ none := by
  induction hin with
  | self sha =>
    obtain ⟨hentries, -⟩ := h
    simp [hentries]
  | under hentries hentry hmode _ ih =>
    obtain ⟨hentries', hsupplied⟩ := h
    obtain rfl := Option.some.inj (hentries.symm.trans hentries')
    exact ih (hsupplied _ hentry hmode)

/-- A file stands at one place once, where no name has a slash and no two of a directory are one. -/
theorem entryIn_unique (hnames : ∀ sha entries, entriesOf trees sha = some entries → NamesFormed [] entries) {sha : String}
    {path : JsString} {file file' : TreeEntry} (h : EntryIn trees sha path file) (h' : EntryIn trees sha path file') : file = file' := by
  induction h generalizing file' with
  | @here sha entries file hentries hentry hmode =>
    have hformed := hnames sha entries hentries
    generalize hpath : file.name = path at h'
    cases h' with
    | here hentries' hentry' _ =>
      obtain rfl := Option.some.inj (hentries.symm.trans hentries')
      exact List.inj_on_of_nodup_map hformed.nodup hentry hentry' hpath
    | under _ _ _ _ => exact absurd (hpath ▸ by simp) (hformed.plain _ hentry).2.1
  | @under sha entries entry file path hentries hentry hmode hin ih =>
    have hformed := hnames sha entries hentries
    generalize hpath : entry.name ++ slash :: path = full at h'
    cases h' with
    | here hentries' hentry' _ =>
      obtain rfl := Option.some.inj (hentries.symm.trans hentries')
      exact absurd (hpath ▸ by simp) (hformed.plain _ hentry').2.1
    | under hentries' hentry' _ hin' =>
      obtain rfl := Option.some.inj (hentries.symm.trans hentries')
      -- the first slash of a path ends the name of its first directory
      obtain ⟨hname, rfl⟩ := first_unique (hformed.plain _ hentry).2.1 (hformed.plain _ hentry').2.1 hpath
      obtain rfl := List.inj_on_of_nodup_map hformed.nodup hentry hentry' hname
      exact ih hin'

end

/-! ## The repository -/

section

variable {env : RecipeEnv} {repository : String → Bytes → Prop} {trees : Trees}

/-- The repository has a tree object of this name, with these entries. -/
def TreeAt (env : RecipeEnv) (repository : String → Bytes → Prop) (sha : String) (raws : List RawEntry) : Prop :=
  ∃ bytes, repository "tree" bytes ∧ gitHash env "tree" bytes = sha ∧ IsTree raws bytes

def rawTreeMode : Bytes := encodeUnits treeMode

/-- The files of a directory of the repository, those below it included, with their paths in bytes. -/
inductive FileIn (env : RecipeEnv) (repository : String → Bytes → Prop) : String → Bytes → RawEntry → Prop
  | here {sha : String} {raws : List RawEntry} {raw : RawEntry} : TreeAt env repository sha raws → raw ∈ raws →
    raw.mode ≠ rawTreeMode → FileIn env repository sha raw.name raw
  | under {sha : String} {raws : List RawEntry} {raw file : RawEntry} {path : Bytes} : TreeAt env repository sha raws →
    raw ∈ raws → raw.mode = rawTreeMode → FileIn env repository raw.sha path file →
    FileIn env repository sha (raw.name ++ 0x2F :: path) file

/-- The directory of the repository that some names lead to. -/
inductive DirAt (env : RecipeEnv) (repository : String → Bytes → Prop) : String → List Bytes → String → Prop
  | nil (root : String) : DirAt env repository root [] root
  | cons {root dir : String} {raws : List RawEntry} {raw : RawEntry} {parts : List Bytes} : TreeAt env repository root raws →
    raw ∈ raws → raw.mode = rawTreeMode → DirAt env repository raw.sha parts dir →
    DirAt env repository root (raw.name :: parts) dir

/-- A directory of the repository and those below it. -/
inductive TreeBelow (env : RecipeEnv) (repository : String → Bytes → Prop) : String → String → Prop
  | self (sha : String) : TreeBelow env repository sha sha
  | under {sha below : String} {raws : List RawEntry} {raw : RawEntry} : TreeAt env repository sha raws → raw ∈ raws →
    raw.mode = rawTreeMode → TreeBelow env repository raw.sha below → TreeBelow env repository sha below

def RawEntry.Unmarked (raw : RawEntry) : Prop := ¬HasMark raw.mode ∧ ¬HasMark raw.name

/-- The trees of a capture are those of the repository, which has no two objects of one name. -/
structure Known (env : RecipeEnv) (repository : String → Bytes → Prop) (trees : Trees) : Prop where
  found : ∀ sha entries, entriesOf trees sha = some entries →
    ∃ raws, TreeAt env repository sha raws ∧ List.Forall₂ Reads raws entries ∧ ∀ raw ∈ raws, raw.Unmarked
  names : ∀ sha entries, entriesOf trees sha = some entries → NamesFormed [] entries
  free : ∀ sha raws raws', TreeAt env repository sha raws → TreeAt env repository sha raws' → raws = raws'

theorem encodeUnits_textDecode {bytes : Bytes} {text : JsString} (h : textDecode bytes = .ok text) (hmark : ¬HasMark bytes) :
    encodeUnits text = bytes := by
  unfold HasMark at hmark
  simp only [textDecode, if_neg hmark] at h
  split at h
  · next hvalid =>
    cases h
    rw [encodeUnits, decodeUnits, toText_units, String.toList_ofList, hvalid]
  · cases h

theorem Reads.mode_iff {raw : RawEntry} {entry : TreeEntry} (h : Reads raw entry) (hmark : raw.Unmarked) :
    raw.mode = rawTreeMode ↔ entry.mode = treeMode := by
  constructor
  · intro hmode
    rw [textDecode_ok h.mode hmark.1, hmode, rawTreeMode, decodeUnits_encodeUnits, treeMode, toText_units]
  · intro hmode
    rw [← encodeUnits_textDecode h.mode hmark.1, hmode, rawTreeMode]

theorem encodeUnits_slash (name path : JsString) :
    encodeUnits (name ++ slash :: path) = encodeUnits name ++ 0x2F :: encodeUnits path := by
  rw [encodeUnits_append (by decide), List.append_assoc]
  rfl

theorem exists_of_forall₂_left {α β : Type} {R : α → β → Prop} {as : List α} {bs : List β} (h : List.Forall₂ R as bs) {a : α}
    (ha : a ∈ as) : ∃ b ∈ bs, R a b := by
  induction h with
  | nil => cases ha
  | cons hab _ ih =>
    rcases List.mem_cons.mp ha with rfl | ha
    · exact ⟨_, List.mem_cons_self, hab⟩
    · obtain ⟨b, hb, hr⟩ := ih ha
      exact ⟨b, List.mem_cons_of_mem _ hb, hr⟩

theorem exists_of_forall₂_right {α β : Type} {R : α → β → Prop} {as : List α} {bs : List β} (h : List.Forall₂ R as bs) {b : β}
    (hb : b ∈ bs) : ∃ a ∈ as, R a b := exists_of_forall₂_left h.flip hb

/-- What the walk comes to is in the repository. -/
theorem fileIn_of_entryIn (hknown : Known env repository trees) {sha : String} {path : JsString} {file : TreeEntry}
    (h : EntryIn trees sha path file) : ∃ raw, FileIn env repository sha (encodeUnits path) raw ∧ Reads raw file ∧ raw.Unmarked := by
  induction h with
  | here hentries hentry hmode =>
    obtain ⟨raws, htree, hreads, hmarks⟩ := hknown.found _ _ hentries
    obtain ⟨raw, hraw, hread⟩ := exists_of_forall₂_right hreads hentry
    refine ⟨raw, ?_, hread, hmarks raw hraw⟩
    rw [encodeUnits_textDecode hread.name (hmarks raw hraw).2]
    exact .here htree hraw (mt (hread.mode_iff (hmarks raw hraw)).mp hmode)
  | under hentries hentry hmode _ ih =>
    obtain ⟨raws, htree, hreads, hmarks⟩ := hknown.found _ _ hentries
    obtain ⟨raw, hraw, hread⟩ := exists_of_forall₂_right hreads hentry
    obtain ⟨file', hin, hfile, hmark⟩ := ih
    refine ⟨file', ?_, hfile, hmark⟩
    rw [encodeUnits_slash, encodeUnits_textDecode hread.name (hmarks raw hraw).2]
    exact .under htree hraw ((hread.mode_iff (hmarks raw hraw)).mpr hmode) (hread.sha ▸ hin)

/-- What is in the repository, the walk comes to. -/
theorem entryIn_of_fileIn (hknown : Known env repository trees) {sha : String} {path : Bytes} {raw : RawEntry}
    (h : FileIn env repository sha path raw) (hsupplied : Supplied trees sha) :
    ∃ text file, EntryIn trees sha text file ∧ encodeUnits text = path ∧ Reads raw file ∧ raw.Unmarked := by
  induction h with
  | here htree hraw hmode =>
    obtain ⟨hentries, -⟩ := hsupplied
    obtain ⟨raws', htree', hreads, hmarks⟩ := hknown.found _ _ hentries
    -- no other tree has this name, so the entries of the repository are the supplied ones
    obtain rfl := hknown.free _ _ _ htree htree'
    obtain ⟨entry, hentry, hread⟩ := exists_of_forall₂_left hreads hraw
    exact ⟨entry.name, entry, .here hentries hentry (mt (hread.mode_iff (hmarks _ hraw)).mpr hmode),
      encodeUnits_textDecode hread.name (hmarks _ hraw).2, hread, hmarks _ hraw⟩
  | under htree hraw hmode _ ih =>
    obtain ⟨hentries, hbelow⟩ := hsupplied
    obtain ⟨raws', htree', hreads, hmarks⟩ := hknown.found _ _ hentries
    obtain rfl := hknown.free _ _ _ htree htree'
    obtain ⟨entry, hentry, hread⟩ := exists_of_forall₂_left hreads hraw
    have hdir := (hread.mode_iff (hmarks _ hraw)).mp hmode
    obtain ⟨text, file, hin, htext, hfile⟩ := ih (hread.sha ▸ hbelow entry hentry hdir)
    refine ⟨entry.name ++ slash :: text, file, .under hentries hentry hdir (hread.sha ▸ hin), ?_, hfile⟩
    rw [encodeUnits_slash, encodeUnits_textDecode hread.name (hmarks _ hraw).2, htext]

theorem dirAt_of_dirIn (hknown : Known env repository trees) {root dir : String} {parts : List JsString}
    (h : DirIn trees root parts dir) : DirAt env repository root (parts.map encodeUnits) dir := by
  induction h with
  | nil root => exact .nil root
  | cons hentries hentry hmode _ ih =>
    obtain ⟨raws, htree, hreads, hmarks⟩ := hknown.found _ _ hentries
    obtain ⟨raw, hraw, hread⟩ := exists_of_forall₂_right hreads hentry
    rw [List.map_cons, encodeUnits_textDecode hread.name (hmarks raw hraw).2]
    exact .cons htree hraw ((hread.mode_iff (hmarks raw hraw)).mpr hmode) (hread.sha ▸ ih)

theorem treeBelow_of_treeIn (hknown : Known env repository trees) {sha below : String} (h : TreeIn trees sha below) :
    TreeBelow env repository sha below := by
  induction h with
  | self sha => exact .self sha
  | under hentries hentry hmode _ ih =>
    obtain ⟨raws, htree, hreads, hmarks⟩ := hknown.found _ _ hentries
    obtain ⟨raw, hraw, hread⟩ := exists_of_forall₂_right hreads hentry
    exact .under htree hraw ((hread.mode_iff (hmarks raw hraw)).mpr hmode) (hread.sha ▸ ih)

/-! ## Encoding the entries again -/

/-- The value of a hexadecimal digit in lower case. -/
def hexValue (c : Char) : Nat := if c.toNat < 58 then c.toNat - 48 else c.toNat - 87

/-- The bytes that pairs of hexadecimal digits spell. -/
def hexBytes : List Char → Bytes
  | high :: low :: cs => UInt8.ofNat (hexValue high * 16 + hexValue low) :: hexBytes cs
  | _ => []

theorem hexValue_hexDigit : ∀ {n : Nat}, n < 16 → hexValue (Json.hexDigit n) = n := by
  decide

theorem hexBytes_hex (bytes : Bytes) : hexBytes (bytes.flatMap hexByte) = bytes := by
  induction bytes with
  | nil => rfl
  | cons b bytes ih =>
    have hb := b.toNat_lt
    rw [List.flatMap_cons, hexByte, List.cons_append, List.cons_append, List.nil_append, hexBytes, ih,
      hexValue_hexDigit (by omega), hexValue_hexDigit (by omega)]
    rw [show b.toNat / 16 * 16 + b.toNat % 16 = b.toNat by omega, UInt8.ofNat_toNat]

/-- An entry as a tree object has it. -/
def encodeEntry (entry : TreeEntry) : Bytes :=
  encodeUnits entry.mode ++ 0x20 :: (encodeUnits entry.name ++ 0 :: hexBytes entry.sha.toList)

theorem encodeEntry_reads {raw : RawEntry} {entry : TreeEntry} (h : Reads raw entry) (hmark : raw.Unmarked) :
    encodeEntry entry = raw.bytes := by
  rw [encodeEntry, encodeUnits_textDecode h.mode hmark.1, encodeUnits_textDecode h.name hmark.2, h.sha, RawEntry.sha,
    String.toList_ofList, hexBytes_hex, RawEntry.bytes]

theorem encodeEntries_reads {raws : List RawEntry} {entries : List TreeEntry} (h : List.Forall₂ Reads raws entries)
    (hmark : ∀ raw ∈ raws, raw.Unmarked) : entries.flatMap encodeEntry = raws.flatMap RawEntry.bytes := by
  induction h with
  | nil => rfl
  | cons hread _ ih =>
    obtain ⟨hraw, hraws⟩ := List.forall_mem_cons.mp hmark
    rw [List.flatMap_cons, List.flatMap_cons, ih hraws, encodeEntry_reads hread hraw]

/-! ## What a capture was checked against -/

/-- The body of the loop over the trees. -/
def loadTree (env : RecipeEnv) (trees : Trees) (ref : InputObject) : Except String Trees := do
  let bytes ← load env ref
  let sha := gitHash env "tree" bytes
  if trees.any (·.1 = sha) then .error "Duplicate recipe Git tree proof"
  else do
    let entries ← parseTree bytes
    .ok (trees ++ [(sha, entries)])

/-- The tree of an object, by its name and with its entries. -/
structure TreeOf (env : RecipeEnv) (ref : InputObject) (x : String × List TreeEntry) : Prop where
  sha : x.1 = gitHash env "tree" (objectBytes env ref)
  parsed : parseTree (objectBytes env ref) = .ok x.2

theorem loadTree_ok {ref : InputObject} {trees' : Trees} (h : loadTree env trees ref = .ok trees') :
    ∃ x, TreeOf env ref x ∧ trees' = trees ++ [x] ∧ x.1 ∉ trees.map (·.1) := by
  obtain ⟨bytes, hbytes, h⟩ := bind_ok.mp h
  obtain rfl := load_ok hbytes
  dsimp only at h
  split at h
  · cases h
  · next hnew =>
    obtain ⟨entries, hparse, h⟩ := bind_ok.mp h
    cases h
    refine ⟨_, ⟨rfl, hparse⟩, rfl, fun hmem => hnew ?_⟩
    obtain ⟨x, hx, hsha⟩ := List.mem_map.mp hmem
    exact List.any_eq_true.mpr ⟨x, hx, decide_eq_true hsha⟩

theorem loadTrees_from {refs : List InputObject} {trees' : Trees} (h : refs.foldlM (loadTree env) trees = .ok trees') :
    (∀ x ∈ trees', x ∈ trees ∨ ∃ ref ∈ refs, TreeOf env ref x) ∧ (∀ x ∈ trees, x ∈ trees') ∧
      (∀ ref ∈ refs, ∃ x ∈ trees', TreeOf env ref x) ∧ ((trees.map (·.1)).Nodup → (trees'.map (·.1)).Nodup) := by
  induction refs generalizing trees with
  | nil =>
    cases h
    exact ⟨fun _ h => .inl h, fun _ h => h, by simp, id⟩
  | cons ref refs ih =>
    rw [List.foldlM_cons] at h
    obtain ⟨u, hu, h⟩ := bind_ok.mp h
    obtain ⟨x, hx, rfl, hnew⟩ := loadTree_ok hu
    obtain ⟨hfrom, hkeeps, hrefs, hnodup⟩ := ih h
    refine ⟨fun y hy => ?_, fun y hy => hkeeps y (List.mem_append_left _ hy), ?_, fun hn => hnodup ?_⟩
    · rcases hfrom y hy with hy | ⟨ref', href', hy⟩
      · rcases List.mem_append.mp hy with hy | hy
        · exact .inl hy
        · rw [List.mem_singleton.mp hy]
          exact .inr ⟨ref, List.mem_cons_self, hx⟩
      · exact .inr ⟨ref', List.mem_cons_of_mem _ href', hy⟩
    · exact List.forall_mem_cons.mpr ⟨⟨x, hkeeps x (by simp), hx⟩, hrefs⟩
    · rw [List.map_append, List.nodup_append]
      refine ⟨hn, by simp, ?_⟩
      rintro _ hold _ hx' rfl
      simp only [List.map_cons, List.map_nil, List.mem_singleton] at hx'
      exact hnew (hx' ▸ hold)

theorem mem_of_entriesOf {sha : String} {entries : List TreeEntry} (h : entriesOf trees sha = some entries) :
    (sha, entries) ∈ trees := by
  obtain ⟨x, hfind, rfl⟩ := Option.map_eq_some_iff.mp h
  have hsha : x.1 = sha := by simpa using List.find?_some hfind
  rw [← hsha]
  exact List.mem_of_find?_eq_some hfind

/-- What a capture brings is in the repository. -/
structure SuppliedBy (env : RecipeEnv) (repository : String → Bytes → Prop) (value : RecipeCapture) : Prop where
  commit : repository "commit" (objectBytes env value.gitCommit)
  trees : ∀ ref ∈ value.gitTrees, repository "tree" (objectBytes env ref)
  blobs : ∀ file ∈ value.files, repository "blob" (objectBytes env file.object)

/-- No two objects of the repository have one name. -/
def CollisionFree (env : RecipeEnv) (repository : String → Bytes → Prop) : Prop :=
  ∀ kind bytes bytes', repository kind bytes → repository kind bytes' →
    gitHash env kind bytes = gitHash env kind bytes' → bytes = bytes'

/-- No mode or name of a tree starts with a byte order mark, nor does the commit. -/
structure UnmarkedTrees (env : RecipeEnv) (value : RecipeCapture) : Prop where
  commit : ¬HasMark (firstLine (objectBytes env value.gitCommit))
  trees : ∀ ref ∈ value.gitTrees, ∀ raws, IsTree raws (objectBytes env ref) → ∀ raw ∈ raws, raw.Unmarked

theorem known_loadTrees {value : RecipeCapture} (h : loadTrees env value.gitTrees = .ok trees)
    (hsupplied : SuppliedBy env repository value) (hfree : CollisionFree env repository) (hmark : UnmarkedTrees env value) :
    Known env repository trees := by
  obtain ⟨hfrom, -, -, -⟩ := loadTrees_from h
  refine ⟨fun sha entries hentries => ?_, fun sha entries hentries => ?_, ?_⟩
  · obtain hnil | ⟨ref, href, hsha, hparsed⟩ := hfrom _ (mem_of_entriesOf hentries)
    · cases hnil
    · obtain ⟨raws, htree, hreads, -⟩ := parseTree_ok hparsed
      exact ⟨raws, ⟨_, hsupplied.trees ref href, hsha.symm, htree⟩, hreads, hmark.trees ref href raws htree⟩
  · obtain hnil | ⟨ref, href, hsha, hparsed⟩ := hfrom _ (mem_of_entriesOf hentries)
    · cases hnil
    · obtain ⟨raws, -, -, hnames⟩ := parseTree_ok hparsed
      exact hnames
  · rintro sha raws raws' ⟨bytes, hbytes, hsha, htree⟩ ⟨bytes', hbytes', hsha', htree'⟩
    obtain rfl := hfree _ _ _ hbytes hbytes' (hsha.trans hsha'.symm)
    exact isTree_unique htree htree'

/-- A file is the blob of its entry. -/
theorem checkFiles_match {expected : List (JsString × TreeEntry)} {files : List RecipeFile}
    {result : Links × List (JsString × Bytes)} (h : checkFiles env expected files = .ok result) :
    ∀ file ∈ files, ∃ entry, (file.path, entry) ∈ expected ∧ entry.mode = file.mode.text ∧
      entry.sha = gitHash env "blob" (objectBytes env file.object) := by
  induction files generalizing result with
  | nil => simp
  | cons file files ih =>
    rw [checkFiles] at h
    obtain ⟨bytes, hbytes, h⟩ := bind_ok.mp h
    obtain rfl := load_ok hbytes
    split at h
    · cases h
    · next path entry hfind =>
      split at h
      · cases h
      · next hsame =>
        obtain ⟨link, -, h⟩ := bind_ok.mp h
        split at h
        · cases h
        · obtain ⟨⟨links, others⟩, hrest, -⟩ := bind_ok.mp h
          have hpath : path = file.path := by simpa using List.find?_some hfind
          have hmem := List.mem_of_find?_eq_some hfind
          rw [hpath] at hmem
          simp only [not_or, not_not] at hsame
          exact List.forall_mem_cons.mpr ⟨⟨entry, hmem, hsame⟩, ih hrest⟩

/-- The first line of a commit names its tree. -/
structure CommitTree (commit : Bytes) (root : String) : Prop where
  line : firstLine commit = encode ("tree " ++ root).toList
  hex : root.toList.length = 40 ∧ root.toList.all isLowerHex = true

theorem commitTree_of_treeLine {commit : Bytes} {first : JsString} {root : String} (hfirst : textDecode (firstLine commit) = .ok first)
    (hroot : treeLine first = some root) (hmark : ¬HasMark (firstLine commit)) : CommitTree commit root := by
  rw [treeLine] at hroot
  split at hroot
  · next hline =>
    cases hroot
    refine ⟨?_, by simpa using hline.2⟩
    rw [← encodeUnits_textDecode hfirst hmark, encodeUnits, String.toList_append, ← hline.1, String.toList_ofList,
      List.take_append_drop]
  · cases hroot

def directoryParts (value : RecipeCapture) : List JsString := if value.directory = [] then [] else splitPath value.directory

/-- What `verifyFiles` went through. -/
theorem verifyFiles_went {value : RecipeCapture} {result : Links × List (JsString × Bytes)} (h : verifyFiles env value = .ok result) :
    ∃ first root trees dir w w',
      gitHash env "commit" (objectBytes env value.gitCommit) = value.commit ∧
        textDecode (firstLine (objectBytes env value.gitCommit)) = .ok first ∧ treeLine first = some root ∧
        loadTrees env value.gitTrees = .ok trees ∧
        findDirectory trees (directoryParts value) root ⟨0, [], []⟩ = .ok (dir, w) ∧ walk trees walkFuel dir [] w = .ok w' ∧
        w'.used.length = trees.length ∧ w'.expected.length = value.files.length ∧
        checkFiles env w'.expected value.files = .ok result := by
  rw [verifyFiles] at h
  obtain ⟨commit, hcommit, h⟩ := bind_ok.mp h
  obtain rfl := load_ok hcommit
  split at h
  · cases h
  · next hhash =>
    obtain ⟨first, hfirst, h⟩ := bind_ok.mp h
    split at h
    · cases h
    · next root hroot =>
      obtain ⟨trees, htrees, h⟩ := bind_ok.mp h
      obtain ⟨⟨dir, w⟩, hdir, h⟩ := bind_ok.mp h
      obtain ⟨w', hwalk, h⟩ := bind_ok.mp h
      split at h
      · cases h
      · next hlengths =>
        rw [not_or, not_not, not_not] at hlengths
        exact ⟨first, root, trees, dir, w, w', not_not.mp hhash, hfirst, hroot, htrees, hdir, hwalk, hlengths.1, hlengths.2, h⟩

/-- A list without repetition that is as long as one it is in has all of it. -/
theorem subset_of_length_eq {α : Type} {l l' : List α} (hl : l.Nodup) (hsub : l ⊆ l') (hlength : l.length = l'.length) : l' ⊆ l :=
  ((List.subperm_of_subset hl hsub).perm_of_length_le hlength.ge).symm.subset

/-- The capture has a file of this path, mode and contents. -/
def HasFile (env : RecipeEnv) (value : RecipeCapture) (path mode bytes : Bytes) : Prop :=
  ∃ file ∈ value.files, encodeUnits file.path = path ∧ encodeUnits file.mode.text = mode ∧ objectBytes env file.object = bytes

/-- The directory of the repository has a file of this path, mode and contents. -/
def InDirectory (env : RecipeEnv) (repository : String → Bytes → Prop) (dir : String) (path mode bytes : Bytes) : Prop :=
  ∃ raw, FileIn env repository dir path raw ∧ raw.mode = mode ∧ repository "blob" bytes ∧ gitHash env "blob" bytes = raw.sha

/-- A tree is on the way to the recipe directory, or in it. -/
def TreeUsed (env : RecipeEnv) (repository : String → Bytes → Prop) (root : String) (parts : List JsString) (dir sha : String) : Prop :=
  (∃ front back, parts = front ++ back ∧ back ≠ [] ∧ DirAt env repository root (front.map encodeUnits) sha) ∨
    TreeBelow env repository dir sha

/-- The files of a capture and those of the directory that was walked. -/
theorem hasFile_iff {value : RecipeCapture} {dir : String} {w w' : Walk} {result : Links × List (JsString × Bytes)}
    (hknown : Known env repository trees) (hsupplied : SuppliedBy env repository value) (hfree : CollisionFree env repository)
    (hw : w.expected = []) (hwalk : walk trees walkFuel dir [] w = .ok w') (hlength : w'.expected.length = value.files.length)
    (hfiles : checkFiles env w'.expected value.files = .ok result) (path mode bytes : Bytes) :
    HasFile env value path mode bytes ↔ InDirectory env repository dir path mode bytes := by
  have hwalked := walk_walked hwalk
  have hmatch := checkFiles_match hfiles
  have hsound : ∀ x ∈ w'.expected, EntryIn trees dir x.1 x.2 := by
    intro x hx
    obtain hold | ⟨path, hpath, hin⟩ := hwalked.adds.sound x hx
    · rw [hw] at hold
      cases hold
    · rw [List.nil_append] at hpath
      exact hpath ▸ hin
  constructor
  · rintro ⟨file, hfile, rfl, rfl, rfl⟩
    obtain ⟨entry, hentry, hmode, hsha⟩ := hmatch file hfile
    obtain ⟨raw, hin, hread, hmark⟩ := fileIn_of_entryIn hknown (hsound _ hentry)
    refine ⟨raw, hin, ?_, hsupplied.blobs file hfile, hsha.symm.trans hread.sha⟩
    rw [← hmode, encodeUnits_textDecode hread.mode hmark.1]
  · rintro ⟨raw, hin, rfl, hblob, hsha⟩
    obtain ⟨text, entry, hentry, rfl, hread, hmark⟩ := entryIn_of_fileIn hknown hin hwalked.supplied
    -- each path of the tree is the path of a file, since there are as many of them
    have hpaths : w'.expected.map (·.1) ⊆ value.files.map (·.path) := by
      refine subset_of_length_eq value.paths (fun path hpath => ?_) (by simp [hlength])
      obtain ⟨file, hfile, rfl⟩ := List.mem_map.mp hpath
      obtain ⟨entry, hentry, -⟩ := hmatch file hfile
      exact List.mem_map.mpr ⟨_, hentry, rfl⟩
    obtain ⟨file, hfile, rfl⟩ := List.mem_map.mp (hpaths (hwalked.adds.complete text entry hentry))
    obtain ⟨entry', hentry', hmode, hblob'⟩ := hmatch file hfile
    obtain rfl := entryIn_unique hknown.names hentry (hsound _ hentry')
    refine ⟨file, hfile, rfl, ?_, ?_⟩
    · rw [← hmode, encodeUnits_textDecode hread.mode hmark.1]
    · exact hfree _ _ _ (hsupplied.blobs file hfile) hblob (hblob'.symm.trans (hread.sha.trans hsha.symm))

/-- Every tree of a capture was used. -/
theorem treeUsed_of_verified {value : RecipeCapture} {root dir : String} {w w' : Walk} (hknown : Known env repository trees)
    (htrees : loadTrees env value.gitTrees = .ok trees)
    (hdir : findDirectory trees (directoryParts value) root ⟨0, [], []⟩ = .ok (dir, w))
    (hwalk : walk trees walkFuel dir [] w = .ok w') (hlength : w'.used.length = trees.length) {ref : InputObject}
    (href : ref ∈ value.gitTrees) :
    TreeUsed env repository root (directoryParts value) dir (gitHash env "tree" (objectBytes env ref)) := by
  obtain ⟨-, -, hnodup, hused⟩ := findDirectory_ok hdir
  obtain ⟨-, -, hrefs, -⟩ := loadTrees_from htrees
  have hwalked := walk_walked hwalk
  have hsound : ∀ sha ∈ w'.used, Above trees root (directoryParts value) sha ∨ TreeIn trees dir sha := by
    intro sha hsha
    rcases hwalked.adds.used sha hsha with hsha | hin
    · exact .inl ((hused sha hsha).resolve_left (by simp))
    · exact .inr hin
  -- as many were used as there are, and each that was used is one of them
  have hall : trees.map (·.1) ⊆ w'.used := by
    refine subset_of_length_eq (hwalked.adds.usedNodup (hnodup .nil)) (fun sha hsha => ?_) (by simp [hlength])
    have hfound : entriesOf trees sha ≠ none := by
      rcases hsound sha hsha with ⟨_, _, _, _, _, hfound⟩ | hin
      · exact hfound
      · exact hwalked.supplied.found hin
    obtain ⟨entries, hentries⟩ := Option.ne_none_iff_exists'.mp hfound
    exact List.mem_map.mpr ⟨_, mem_of_entriesOf hentries, rfl⟩
  obtain ⟨x, hx, htree⟩ := hrefs ref href
  rw [← htree.sha]
  rcases hsound _ (hall (List.mem_map.mpr ⟨x, hx, rfl⟩)) with ⟨front, back, hparts, hback, hfront, -⟩ | hin
  · exact .inl ⟨front, back, hparts, hback, dirAt_of_dirIn hknown hfront⟩
  · exact .inr (treeBelow_of_treeIn hknown hin)

/-- An accepted capture, where no two objects of the repository have one name: its files are those of the recipe directory
in the tree of its commit, each with its mode and its contents, and each of its trees was used. What `parseTree` takes is
a sequence of entries with names of their own, which encoded again gives the bytes. -/
theorem verifyRecipeCapture_tree (env : RecipeEnv) (value : RecipeCapture) (retained : List (JsString × Bytes))
    (repository : String → Bytes → Prop) (h : verifyRecipeCapture env value = .ok retained)
    (hsupplied : SuppliedBy env repository value) (hfree : CollisionFree env repository) (hmark : UnmarkedTrees env value) :
    (∃ commit root dir, repository "commit" commit ∧ gitHash env "commit" commit = value.commit ∧ CommitTree commit root ∧
      DirAt env repository root ((directoryParts value).map encodeUnits) dir ∧
      (∀ path mode bytes, HasFile env value path mode bytes ↔ InDirectory env repository dir path mode bytes) ∧
      ∀ ref ∈ value.gitTrees,
        TreeUsed env repository root (directoryParts value) dir (gitHash env "tree" (objectBytes env ref))) ∧
    ∀ bytes entries, parseTree bytes = .ok entries →
      ∃ raws, IsTree raws bytes ∧ List.Forall₂ Reads raws entries ∧ NamesFormed [] entries ∧
        ((∀ raw ∈ raws, raw.Unmarked) → entries.flatMap encodeEntry = bytes) := by
  refine ⟨?_, fun bytes entries hparse => ?_⟩
  · obtain ⟨result, hverified, -⟩ := bind_ok.mp h
    obtain ⟨first, root, trees, dir, w, w', hcommit, hfirst, hroot, htrees, hdir, hwalk, hused, hexpected, hfiles⟩ :=
      verifyFiles_went hverified
    have hknown := known_loadTrees htrees hsupplied hfree hmark
    obtain ⟨hin, hw, -, -⟩ := findDirectory_ok hdir
    refine ⟨_, root, dir, hsupplied.commit, hcommit, commitTree_of_treeLine hfirst hroot hmark.commit,
      dirAt_of_dirIn hknown hin, ?_, fun ref href => treeUsed_of_verified hknown htrees hdir hwalk hused href⟩
    exact hasFile_iff hknown hsupplied hfree hw hwalk hexpected hfiles
  · obtain ⟨raws, htree, hreads, hnames⟩ := parseTree_ok hparse
    exact ⟨raws, htree, hreads, hnames, fun hraws => (encodeEntries_reads hreads hraws).trans htree.bytes.symm⟩

end

def danglingEntries : List RawEntry := [
  ⟨encode "100644".toList, encode "PKGBUILD".toList,
    [116, 61, 196, 67, 244, 149, 191, 236, 60, 140, 97, 225, 117, 85, 209, 166, 238, 224, 170, 80]⟩,
  ⟨encode "120000".toList, encode "a".toList,
    [110, 171, 121, 166, 206, 37, 177, 152, 81, 245, 145, 227, 233, 116, 225, 146, 198, 133, 140, 246]⟩]

/-- The objects of the capture: its commit, its tree and its two blobs. -/
theorem danglingCapture_objects : danglingTree = danglingEntries.flatMap RawEntry.bytes ∧
    objectBytes danglingEnv danglingCapture.gitCommit = danglingCommit ∧
    objectBytes danglingEnv ⟨"d225d58d7d13617ac66dc55972afdd4344f017449c4e86b20f37dd2c45ca7319", 65⟩ = danglingTree ∧
    danglingCapture.files.map (objectBytes danglingEnv ·.object) = [pkgbuild, encode "missing".toList] ∧
    gitHash danglingEnv "blob" pkgbuild ≠ gitHash danglingEnv "blob" (encode "missing".toList) ∧
    ¬[0xEF, 0xBB, 0xBF] <+: firstLine danglingCommit := by
  decide +kernel

theorem isTree_danglingTree : IsTree danglingEntries danglingTree where
  formed := by
    intro raw hraw
    simp only [danglingEntries, List.mem_cons, List.not_mem_nil, or_false] at hraw
    obtain rfl | rfl := hraw
    · exact ⟨by decide, by decide, by decide⟩
    · exact ⟨by decide, by decide, by decide⟩
  bytes := danglingCapture_objects.1

/-- The four objects of the capture. -/
def danglingRepository (kind : String) (bytes : Bytes) : Prop :=
  kind = "commit" ∧ bytes = danglingCommit ∨ kind = "tree" ∧ bytes = danglingTree ∨
    kind = "blob" ∧ (bytes = pkgbuild ∨ bytes = encode "missing".toList)

theorem danglingRepository_supplied : SuppliedBy danglingEnv danglingRepository danglingCapture where
  commit := by
    exact danglingCapture_objects.2.1 ▸ .inl ⟨rfl, rfl⟩
  trees ref href := by
    rw [List.mem_singleton.mp href]
    exact danglingCapture_objects.2.2.1 ▸ .inr (.inl ⟨rfl, rfl⟩)
  blobs file hfile := by
    have hblob : objectBytes danglingEnv file.object ∈ [pkgbuild, encode "missing".toList] :=
      danglingCapture_objects.2.2.2.1 ▸ List.mem_map_of_mem hfile
    exact .inr (.inr ⟨rfl, by simpa using hblob⟩)

theorem danglingRepository_free : CollisionFree danglingEnv danglingRepository := by
  have hblobs := danglingCapture_objects.2.2.2.2.1
  intro kind bytes bytes' hbytes hbytes' hsame
  rcases hbytes with ⟨hkind, hbytes⟩ | ⟨hkind, hbytes⟩ | ⟨hkind, hblob⟩
  · rcases hbytes' with ⟨-, hbytes'⟩ | ⟨hkind', -⟩ | ⟨hkind', -⟩
    · exact hbytes.trans hbytes'.symm
    · exact absurd (hkind.symm.trans hkind') (by decide)
    · exact absurd (hkind.symm.trans hkind') (by decide)
  · rcases hbytes' with ⟨hkind', -⟩ | ⟨-, hbytes'⟩ | ⟨hkind', -⟩
    · exact absurd (hkind.symm.trans hkind') (by decide)
    · exact hbytes.trans hbytes'.symm
    · exact absurd (hkind.symm.trans hkind') (by decide)
  · rcases hbytes' with ⟨hkind', -⟩ | ⟨hkind', -⟩ | ⟨-, hblob'⟩
    · exact absurd (hkind.symm.trans hkind') (by decide)
    · exact absurd (hkind.symm.trans hkind') (by decide)
    · rw [hkind] at hsame
      rcases hblob with hbytes | hbytes <;> rcases hblob' with hbytes' | hbytes'
      · exact hbytes.trans hbytes'.symm
      · rw [hbytes, hbytes'] at hsame
        exact absurd hsame hblobs
      · rw [hbytes, hbytes'] at hsame
        exact absurd hsame.symm hblobs
      · exact hbytes.trans hbytes'.symm

theorem danglingCapture_unmarkedTrees : UnmarkedTrees danglingEnv danglingCapture where
  commit := by
    rw [danglingCapture_objects.2.1]
    exact danglingCapture_objects.2.2.2.2.2
  trees ref href raws htree := by
    rw [List.mem_singleton.mp href] at htree
    rw [danglingCapture_objects.2.2.1] at htree
    obtain rfl := isTree_unique htree isTree_danglingTree
    intro raw hraw
    simp only [danglingEntries, List.mem_cons, List.not_mem_nil, or_false] at hraw
    obtain rfl | rfl := hraw <;> exact ⟨by rw [HasMark]; decide, by rw [HasMark]; decide⟩

theorem verifyRecipeCapture_tree_dangling :
    (∃ commit root dir, danglingRepository "commit" commit ∧ gitHash danglingEnv "commit" commit = danglingCapture.commit ∧
      CommitTree commit root ∧ DirAt danglingEnv danglingRepository root ((directoryParts danglingCapture).map encodeUnits) dir ∧
      (∀ path mode bytes, HasFile danglingEnv danglingCapture path mode bytes ↔
        InDirectory danglingEnv danglingRepository dir path mode bytes) ∧
      ∀ ref ∈ danglingCapture.gitTrees, TreeUsed danglingEnv danglingRepository root (directoryParts danglingCapture) dir
        (gitHash danglingEnv "tree" (objectBytes danglingEnv ref))) ∧
    ∀ bytes entries, parseTree bytes = .ok entries →
      ∃ raws, IsTree raws bytes ∧ List.Forall₂ Reads raws entries ∧ NamesFormed [] entries ∧
        ((∀ raw ∈ raws, raw.Unmarked) → entries.flatMap encodeEntry = bytes) :=
  verifyRecipeCapture_tree danglingEnv danglingCapture _ danglingRepository danglingCapture_accepted danglingRepository_supplied
    danglingRepository_free danglingCapture_unmarkedTrees

/-! ## Trees that are taken as others -/

/-- The name by which the entries of a tree are in order. -/
def RawEntry.orderName (raw : RawEntry) : Bytes := if raw.mode = rawTreeMode then raw.name ++ [0x2F] else raw.name

/-- A file whose name starts with a byte order mark. -/
def markedEntry : RawEntry := ⟨encode "100644".toList, [0xEF, 0xBB, 0xBF, 0x61], List.replicate 20 0⟩

/-- Two files out of order. -/
def unorderedEntries : List RawEntry := [
  ⟨encode "100644".toList, encode "b".toList, List.replicate 20 0⟩,
  ⟨encode "100644".toList, encode "a".toList, List.replicate 20 0⟩]

/-- `parseTree` drops a byte order mark, and asks for no order. -/
theorem parseTree_takes_other_trees :
    (¬∀ bytes entries, parseTree bytes = .ok entries → entries.flatMap encodeEntry = bytes) ∧
      ¬∀ raws bytes entries, IsTree raws bytes → parseTree bytes = .ok entries →
        raws.Pairwise fun raw raw' => raw.orderName < raw'.orderName := by
  refine ⟨fun h => ?_, fun h => ?_⟩
  · have hread : (parseTree markedEntry.bytes).toOption.map (·.flatMap encodeEntry) ≠ some markedEntry.bytes := by decide +kernel
    have hok : (parseTree markedEntry.bytes).toOption.isSome = true := by decide +kernel
    cases hparse : parseTree markedEntry.bytes with
    | error e =>
      rw [hparse] at hok
      cases hok
    | ok entries =>
      rw [hparse] at hread
      exact hread (congrArg some (h _ _ hparse))
  · have hok : (parseTree (unorderedEntries.flatMap RawEntry.bytes)).toOption.isSome = true := by decide +kernel
    have htree : IsTree unorderedEntries (unorderedEntries.flatMap RawEntry.bytes) := by
      refine ⟨fun raw hraw => ?_, rfl⟩
      simp only [unorderedEntries, List.mem_cons, List.not_mem_nil, or_false] at hraw
      obtain rfl | rfl := hraw <;> exact ⟨by decide, by decide, by decide⟩
    cases hparse : parseTree (unorderedEntries.flatMap RawEntry.bytes) with
    | error e =>
      rw [hparse] at hok
      cases hok
    | ok entries =>
      have horder := List.rel_of_pairwise_cons (h _ _ _ htree hparse) List.mem_cons_self
      exact absurd horder (by decide +kernel)

end Omapkg.Server.Recipe
