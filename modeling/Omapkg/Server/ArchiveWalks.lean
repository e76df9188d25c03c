import Omapkg.Lib.Pieces
import Omapkg.Server.ArchiveSafety
/-!
# Links of archives

The resolution of a link against a walk in the tree that the entries describe. As long
as no absolute link is met below the root, the loop makes the steps of the walk
(`resolveLoop_walks`), so where it returns the walk ends and never leaves the root.
-/

namespace Omapkg.Server.Archive

open Relation Utf PathWalk

/-! ## Components -/

theorem components_ne_nil (value : CodeUnits) : components value ≠ [] := List.splitOn_ne_nil _ _

theorem joined_components (value : CodeUnits) : joined (components value) = value := List.intercalate_splitOn _

theorem components_joined {stack : List CodeUnits} (hclean : ∀ c ∈ stack, slash ∉ c) (hne : stack ≠ []) :
    components (joined stack) = stack := List.splitOn_intercalate _ hclean hne

theorem components_append (before after : CodeUnits) :
    components (before ++ slash :: after) = components before ++ components after := List.splitOn_append_cons_self _ _

theorem components_single {value : CodeUnits} (h : slash ∉ value) : components value = [value] :=
  List.splitOn_eq_singleton h

theorem slash_notMem {value c : CodeUnits} (hc : c ∈ components value) : slash ∉ c := Pieces.notMem_of_mem_splitOn hc

theorem components_injective {a b : CodeUnits} (h : components a = components b) : a = b := by
  rw [← joined_components a, h, joined_components]

/-! ## The tree of a list of entries -/

def toPart (c : CodeUnits) : PathPart CodeUnits :=
  if c = [] ∨ c = dot then .stay else if c = dotdot then .up else .name c

/-- The parts of a path; an absolute one starts with none. -/
def pathParts (path : CodeUnits) : List (PathPart CodeUnits) := (components path).map toPart

def entryAt (entries : List ArchiveEntry) (place : List CodeUnits) : Option ArchiveEntry :=
  entries.find? fun entry => components entry.path = place

def linkOf (target : CodeUnits) : Link CodeUnits := ⟨target.head? = some slash, pathParts target⟩

def linkAt (entries : List ArchiveEntry) (place : List CodeUnits) : Option (Link CodeUnits) :=
  (entryAt entries place).bind fun entry => if entry.kind = .symlink then some (linkOf entry.targetText) else none

/-- The tree in which every place that is no link is entered, whether it is there or not. -/
def lexicalTree (entries : List ArchiveEntry) : LinkTree CodeUnits := ⟨linkAt entries, fun _ _ => True⟩

theorem entryOf_joined {entries : List ArchiveEntry} {stack : List CodeUnits} (hclean : ∀ c ∈ stack, slash ∉ c)
    (hne : stack ≠ []) : entryOf entries (joined stack) = entryAt entries stack := by
  unfold entryOf entryAt
  congr 1
  funext entry
  refine decide_eq_decide.mpr ⟨?_, ?_⟩
  · intro h
    rw [h, components_joined hclean hne]
  · intro h
    rw [← h, joined_components]

theorem entryAt_some {entries : List ArchiveEntry} {place : List CodeUnits} {entry : ArchiveEntry}
    (h : entryAt entries place = some entry) : entry ∈ entries ∧ components entry.path = place :=
  ⟨List.mem_of_find?_eq_some h, by simpa using List.find?_some h⟩

/-- The next part of a walk is an absolute link. -/
def MeetsAbsolute (entries : List ArchiveEntry) (w : Walk CodeUnits) : Prop :=
  ∃ name parts l, w.parts = .name name :: parts ∧ linkAt entries (w.place ++ [name]) = some l ∧ l.absolute = true

/-- Absolute links are met at the root alone. -/
def Rooted (entries : List ArchiveEntry) (w : Walk CodeUnits) : Prop :=
  ∀ w', ReflTransGen (Step (lexicalTree entries)) w w' → MeetsAbsolute entries w' → w'.place = []

/-! ## The loop -/

def Resolution.walk (s : Resolution) : Walk CodeUnits := ⟨s.stack, s.pending.map toPart⟩

/-- A component that is entered. -/
structure IsName (c : CodeUnits) : Prop where
  slash : slash ∉ c
  stays : ¬(c = [] ∨ c = dot)
  up : c ≠ dotdot

/-- The stack holds names, and no part holds a slash. -/
structure Resolution.Clean (s : Resolution) : Prop where
  stack : ∀ c ∈ s.stack, IsName c
  pending : ∀ c ∈ s.pending, Archive.slash ∉ c

section
variable {entries : List ArchiveEntry} {s s' : Resolution}

/-- A round of the loop is a step of the walk. -/
theorem resolveStep_walks (hclean : s.Clean) (hrooted : MeetsAbsolute entries s.walk → s.stack = [])
    (h : resolveStep entries s = some (.ok s')) : s'.Clean ∧ Step (lexicalTree entries) s.walk s'.walk := by
  obtain ⟨stack, pending, followed⟩ := s
  obtain ⟨hstack, hpending⟩ := hclean
  simp only at hstack hpending
  unfold resolveStep at h
  cases pending with
  | nil => cases h
  | cons part pending =>
    rw [List.forall_mem_cons] at hpending
    simp only [Resolution.walk, List.map_cons] at hrooted ⊢
    dsimp only at h
    split at h
    · rename_i hstay
      cases h
      refine ⟨⟨hstack, hpending.2⟩, ?_⟩
      rw [toPart, if_pos hstay]
      exact .stay
    rename_i hstay
    split at h
    · rename_i hup
      split at h
      · cases h
      · rename_i hne
        cases h
        refine ⟨⟨fun c hc => hstack c (List.mem_of_mem_dropLast hc), hpending.2⟩, ?_⟩
        rw [toPart, if_neg hstay, if_pos hup]
        exact .up hne
    rename_i hup
    have hpart : toPart part = .name part := by rw [toPart, if_neg hstay, if_neg hup]
    rw [hpart] at hrooted ⊢
    have hnames : ∀ c ∈ stack ++ [part], IsName c := by
      intro c hc
      rcases List.mem_append.mp hc with hc | hc
      · exact hstack c hc
      · exact List.mem_singleton.mp hc ▸ ⟨hpending.1, hstay, hup⟩
    rw [entryOf_joined (fun c hc => (hnames c hc).slash) (by simp)] at h
    split at h
    · rename_i hentry
      cases h
      refine ⟨⟨hnames, hpending.2⟩, .enter ?_ trivial⟩
      simp [lexicalTree, linkAt, hentry]
    · rename_i entry hentry
      split at h
      · rename_i hkind
        have hlink : linkAt entries (stack ++ [part]) = some (linkOf entry.targetText) := by
          simp [linkAt, hentry, hkind]
        split at h
        · cases h
        · cases h
          refine ⟨⟨hstack, fun c hc => ?_⟩, ?_⟩
          · rcases List.mem_append.mp hc with hc | hc
            · exact slash_notMem hc
            · exact hpending.2 c hc
          · have hstep : Step (lexicalTree entries) ⟨stack, .name part :: pending.map toPart⟩
                ⟨(linkOf entry.targetText).start stack, (linkOf entry.targetText).target ++ pending.map toPart⟩ :=
              .follow hlink
            have hstart : (linkOf entry.targetText).start stack = stack := by
              unfold Link.start
              split
              · rename_i habsolute
                exact (hrooted ⟨part, _, _, rfl, hlink, habsolute⟩).symm
              · rfl
            rw [hstart] at hstep
            simpa [linkOf, pathParts] using hstep
      · rename_i hkind
        split at h
        · cases h
        · cases h
          refine ⟨⟨hnames, hpending.2⟩, .enter ?_ trivial⟩
          simp [lexicalTree, linkAt, hentry, hkind]

theorem resolveStep_none (h : resolveStep entries s = none) : s.pending = [] := by
  obtain ⟨stack, pending, followed⟩ := s
  cases pending with
  | nil => rfl
  | cons part pending =>
    unfold resolveStep at h
    dsimp only at h
    repeat' split at h
    all_goals cases h

/-- The loop walks to the stack that it returns. -/
theorem resolveLoop_walks {stack : List CodeUnits} (hclean : s.Clean) (hrooted : Rooted entries s.walk)
    (h : resolveLoop entries s = .ok stack) :
    ReflTransGen (Step (lexicalTree entries)) s.walk ⟨stack, []⟩ ∧ ∀ c ∈ stack, IsName c := by
  induction s using resolveLoop.induct entries with
  | case1 s hstep =>
    unfold resolveLoop at h
    split at h
    · cases h
      have hnil := resolveStep_none hstep
      refine ⟨?_, hclean.stack⟩
      rw [Resolution.walk, hnil]
      exact .refl
    · rename_i hother
      rw [hstep] at hother
      cases hother
    · rename_i hother
      rw [hstep] at hother
      cases hother
  | case2 s e hstep =>
    unfold resolveLoop at h
    split at h
    · rename_i hother
      rw [hstep] at hother
      cases hother
    · cases h
    · rename_i hother
      rw [hstep] at hother
      cases hother
  | case3 s s' hstep ih =>
    unfold resolveLoop at h
    split at h
    · rename_i hother
      rw [hstep] at hother
      cases hother
    · cases h
    · rename_i s'' hother
      rw [hstep] at hother
      cases hother
      obtain ⟨hclean', hwalk⟩ := resolveStep_walks hclean (hrooted _ .refl) hstep
      obtain ⟨hsteps, hstack⟩ := ih hclean' (fun w hw => hrooted w (.head hwalk hw)) h
      exact ⟨.head hwalk hsteps, hstack⟩

end

theorem safe_done (t : LinkTree CodeUnits) (place : List CodeUnits) : Safe t ⟨place, []⟩ := by
  refine .intro ?_ fun w' hstep => ?_
  · rintro ⟨-, hhead⟩
    cases hhead
  · cases hstep

/-! ## Valid paths -/

/-- A path that was validated: names between slashes. -/
structure IsPath (path : CodeUnits) : Prop where
  nonempty : path ≠ []
  names : ∀ c ∈ components path, c ≠ [] ∧ c ≠ dot ∧ c ≠ dotdot

theorem validateArchivePath_ok {value path : CodeUnits} {maxBytes : Nat}
    (h : validateArchivePath value maxBytes = .ok path) : IsPath path ∧ path = dropDotSlash value := by
  unfold validateArchivePath at h
  obtain ⟨-, h⟩ := Fallible.guard_ok.mp h
  obtain ⟨hok, h⟩ := Fallible.guard_ok.mp h
  cases h
  simp only [not_or, List.any_eq_true, Bool.or_eq_true, decide_eq_true_eq, not_exists, not_and] at hok
  refine ⟨⟨hok.1, fun c hc => ?_⟩, rfl⟩
  obtain ⟨⟨hdotdot, hdot⟩, hnil⟩ := hok.2.2.2 c hc
  exact ⟨hnil, hdot, hdotdot⟩

theorem IsPath.isName {path c : CodeUnits} (h : IsPath path) (hc : c ∈ components path) : IsName c := by
  obtain ⟨hnil, hdot, hdotdot⟩ := h.names c hc
  exact ⟨slash_notMem hc, by simp [hnil, hdot], hdotdot⟩

/-- The path of a stack of names is that of its names. -/
theorem validateArchivePath_joined {stack : List CodeUnits} (hne : stack ≠ []) (hnames : ∀ c ∈ stack, IsName c)
    {maxBytes : Nat} {path : CodeUnits} (h : validateArchivePath (joined stack) maxBytes = .ok path) :
    components path = stack := by
  have hcomponents := components_joined (fun c hc => (hnames c hc).slash) hne
  rw [(validateArchivePath_ok h).2, dropDotSlash]
  split
  · rename_i hdot
    obtain ⟨rest, hrest⟩ := List.isPrefixOf_iff_prefix.mp hdot
    have hsplit : joined stack = dot ++ slash :: rest := by
      rw [← hrest, List.append_assoc]
      rfl
    rw [hsplit, components_append, components_single (by decide)] at hcomponents
    have hmem : dot ∈ stack := hcomponents ▸ List.mem_append_left _ (List.mem_singleton_self _)
    exact absurd (.inr rfl) (hnames dot hmem).stays
  · exact hcomponents

theorem normalizePath_ok {value path : CodeUnits} (h : normalizePath value = .ok path) : IsPath path :=
  (validateArchivePath_ok h).1

theorem IsPath.parts {path : CodeUnits} (h : IsPath path) : pathParts path = (components path).map .name := by
  refine List.map_congr_left fun c hc => ?_
  obtain ⟨hnil, hdot, hdotdot⟩ := h.names c hc
  rw [toPart, if_neg (by simp [hnil, hdot]), if_neg hdotdot]

/-! ## Ancestors -/

/-- A path with a slash is its parent, a slash and a name. -/
theorem parentOf_spec {path : CodeUnits} (h : slash ∈ path) :
    ∃ base, slash ∉ base ∧ path = parentOf path ++ slash :: base := by
  have hsplit := List.takeWhile_append_dropWhile (p := fun u => decide (u ≠ slash)) (l := path.reverse)
  have hbase : slash ∉ (path.reverse.takeWhile fun u => decide (u ≠ slash)).reverse := by
    intro hmem
    have := List.mem_takeWhile_imp (List.mem_reverse.mp hmem)
    simp at this
  cases hdrop : path.reverse.dropWhile (fun u => decide (u ≠ slash)) with
  | nil =>
    rw [hdrop, List.append_nil] at hsplit
    rw [hsplit, List.reverse_reverse] at hbase
    exact absurd h hbase
  | cons u rest =>
    have hu : u = slash := by
      have hhead := List.head?_dropWhile_not (fun u => decide (u ≠ slash)) path.reverse
      rw [hdrop] at hhead
      simpa using hhead
    refine ⟨_, hbase, ?_⟩
    rw [hdrop, hu] at hsplit
    have hpath := congrArg List.reverse hsplit
    rw [List.reverse_append, List.reverse_cons, List.reverse_reverse, List.append_assoc] at hpath
    rw [parentOf, hdrop, List.tail_cons]
    exact hpath.symm

theorem parentOf_none {path : CodeUnits} (h : slash ∉ path) : parentOf path = [] := by
  have hdrop : path.reverse.dropWhile (fun u => decide (u ≠ slash)) = [] := by
    rw [List.dropWhile_eq_nil_iff]
    intro u hu
    simp only [decide_eq_true_eq]
    rintro rfl
    exact h (List.mem_reverse.mp hu)
  rw [parentOf, hdrop]
  rfl

/-- The place that holds an entry. -/
theorem components_parentOf {path : CodeUnits} (h : IsPath path) :
    (if parentOf path = [] then [] else components (parentOf path)) = (components path).dropLast := by
  by_cases hmem : slash ∈ path
  · obtain ⟨base, hbase, heq⟩ := parentOf_spec hmem
    have hcomponents : components path = components (parentOf path) ++ [base] := by
      conv_lhs => rw [heq]
      rw [components_append, components_single hbase]
    have hne : parentOf path ≠ [] := by
      intro hnil
      have := h.names [] (by rw [hcomponents, hnil]; exact List.mem_append_left _ (List.mem_singleton_self _))
      exact this.1 rfl
    rw [if_neg hne, hcomponents, List.dropLast_concat]
  · rw [parentOf_none hmem, if_pos rfl, components_single hmem]
    rfl

/-- The ancestors of a path are what stands before one of its slashes. -/
theorem mem_ancestors {path parent : CodeUnits} : parent ∈ ancestors path ↔ parent ++ [slash] <+: path := by
  induction hn : path.length using Nat.strong_induction_on generalizing path with
  | _ n ih =>
    rw [ancestors]
    split
    · rename_i hmem
      obtain ⟨base, hbase, heq⟩ := parentOf_spec hmem
      have hlt := length_parentOf hmem
      rw [List.mem_cons, ih _ (hn ▸ hlt) rfl]
      constructor
      · rintro (rfl | hprefix)
        · refine ⟨base, ?_⟩
          rw [List.append_assoc]
          exact heq.symm
        · refine hprefix.trans ⟨slash :: base, heq.symm⟩
      · intro hprefix
        have hparent : parentOf path <+: path := ⟨slash :: base, heq.symm⟩
        rcases Nat.lt_trichotomy parent.length (parentOf path).length with hlt' | heq' | hgt
        · refine .inr (List.prefix_of_prefix_length_le hprefix hparent ?_)
          rw [List.length_append]
          exact hlt'
        · left
          have hself : parent <+: path := (List.prefix_append parent [slash]).trans hprefix
          exact (List.prefix_of_prefix_length_le hself hparent heq'.le).eq_of_length heq'
        · -- the slash would stand behind the last one
          have hslash : parentOf path ++ [slash] <+: path := ⟨base, by rw [List.append_assoc]; exact heq.symm⟩
          have hself : parent <+: path := (List.prefix_append parent [slash]).trans hprefix
          obtain ⟨x, hx⟩ := List.prefix_of_prefix_length_le hslash hself (by rw [List.length_append]; exact hgt)
          obtain ⟨after, hafter⟩ := hprefix
          rw [← hx] at hafter
          have hleft : parentOf path ++ slash :: (x ++ slash :: after) = path := by
            simp only [List.append_assoc, List.cons_append, List.nil_append] at hafter
            exact hafter
          have hpath := hleft.trans heq
          have hbase' := List.append_cancel_left hpath
          simp only [List.cons.injEq, true_and] at hbase'
          exact absurd (hbase' ▸ by simp) hbase
    · rename_i hmem
      refine iff_of_false List.not_mem_nil ?_
      rintro ⟨after, rfl⟩
      exact hmem (by simp)

/-! ## Accepted lists -/

/-- What a list of entries was checked for. -/
structure Accepted (form : ArchiveForm) (entries : List ArchiveEntry) : Prop where
  paths : ∀ e ∈ entries, IsPath e.path
  nodup : (entries.map (·.path)).Nodup
  parents : ∀ e ∈ entries, ∀ f ∈ entries, f.path ++ [slash] <+: e.path → f.kind = .directory
  hardlinks : ∀ e ∈ entries, e.kind = .hardlink → ∃ f ∈ entries, f.path = e.targetText ∧ f.kind = .file
  targets : ∀ e ∈ entries, e.kind = .symlink → ∃ path, form.checkTarget e.path e.targetText = .ok path
  links : ∀ e ∈ entries, e.kind = .symlink →
    ∃ path, resolveCanonicalArchivePath (form.resolution e).1 (form.resolution e).2 entries = .ok path

section
variable {form : ArchiveForm} {entries : List ArchiveEntry}

theorem normalizeEntry_ok {maxExpandedBytes : Nat} {raw entry : ArchiveEntry}
    (h : normalizeEntry form maxExpandedBytes raw = .ok entry) :
    IsPath entry.path ∧ (entry.kind = .symlink → ∃ path, form.checkTarget entry.path entry.targetText = .ok path) := by
  unfold normalizeEntry at h
  obtain ⟨-, h⟩ := Fallible.guard_ok.mp h
  obtain ⟨path, hpath, h⟩ := Fallible.bind_ok.mp h
  have hok := normalizePath_ok hpath
  split at h
  · obtain ⟨resolved, hresolved, h⟩ := Fallible.bind_ok.mp h
    cases h
    exact ⟨hok, fun _ => ⟨resolved, hresolved⟩⟩
  · rename_i hkind
    obtain ⟨target, -, h⟩ := Fallible.bind_ok.mp h
    cases h
    exact ⟨hok, fun hother => by rw [hkind] at hother; cases hother⟩
  · rename_i hkind
    obtain ⟨-, h⟩ := Fallible.guard_ok.mp h
    cases h
    exact ⟨hok, fun hother => by rw [hkind] at hother; cases hother⟩
  · rename_i hkind
    obtain ⟨-, h⟩ := Fallible.guard_ok.mp h
    cases h
    exact ⟨hok, fun hother => by rw [hkind] at hother; cases hother⟩

theorem entryOf_some {path : CodeUnits} {entry : ArchiveEntry} (h : entryOf entries path = some entry) :
    entry ∈ entries ∧ entry.path = path :=
  ⟨List.mem_of_find?_eq_some h, by simpa using List.find?_some h⟩

theorem entryOf_mem (hn : (entries.map (·.path)).Nodup) {entry : ArchiveEntry} (h : entry ∈ entries) :
    entryOf entries entry.path = some entry := by
  cases hfind : entryOf entries entry.path with
  | none =>
    have := List.find?_eq_none.mp hfind entry h
    simp at this
  | some other =>
    obtain ⟨hmem, hpath⟩ := entryOf_some hfind
    rw [List.inj_on_of_nodup_map hn hmem h hpath]

theorem checkEntry_ok (hn : (entries.map (·.path)).Nodup) {maxExpandedBytes size size' : Nat} {entry : ArchiveEntry}
    (h : checkEntry form entries maxExpandedBytes size entry = .ok size') :
    (∀ f ∈ entries, f.path ++ [slash] <+: entry.path → f.kind = .directory) ∧
      (entry.kind = .hardlink → ∃ f ∈ entries, f.path = entry.targetText ∧ f.kind = .file) := by
  unfold checkEntry at h
  obtain ⟨-, h⟩ := Fallible.guard_ok.mp h
  obtain ⟨hparents, h⟩ := Fallible.guard_ok.mp h
  obtain ⟨hhardlink, -⟩ := Fallible.guard_ok.mp h
  constructor
  · intro f hf hprefix
    by_contra hkind
    refine hparents (List.any_eq_true.mpr ⟨f.path, mem_ancestors.mpr hprefix, ?_⟩)
    rw [entryOf_mem hn hf]
    simpa using hkind
  · intro hkind
    rw [not_and, Bool.not_eq_false] at hhardlink
    have htarget := hhardlink hkind
    cases hentry : entryOf entries entry.targetText with
    | none =>
      rw [hentry] at htarget
      cases htarget
    | some f =>
      rw [hentry] at htarget
      obtain ⟨hmem, hpath⟩ := entryOf_some hentry
      exact ⟨f, hmem, hpath, by simpa using htarget⟩

theorem checkLink_ok {entry : ArchiveEntry} (h : checkLink form entries entry = .ok ()) (hkind : entry.kind = .symlink) :
    ∃ path, resolveCanonicalArchivePath (form.resolution entry).1 (form.resolution entry).2 entries = .ok path := by
  unfold checkLink at h
  rw [if_pos hkind] at h
  obtain ⟨path, hpath, -⟩ := Fallible.bind_ok.mp h
  exact ⟨path, hpath⟩

theorem validateEntries_accepted {raw : List ArchiveEntry} {maxEntries maxExpandedBytes entryCap expansionCap : Nat}
    (h : validateEntries form raw maxEntries maxExpandedBytes entryCap expansionCap = .ok entries) :
    Accepted form entries := by
  unfold validateEntries at h
  obtain ⟨-, h⟩ := Fallible.guard_ok.mp h
  obtain ⟨-, h⟩ := Fallible.guard_ok.mp h
  obtain ⟨-, h⟩ := Fallible.guard_ok.mp h
  obtain ⟨-, h⟩ := Fallible.guard_ok.mp h
  obtain ⟨_, hread, h⟩ := Fallible.bind_ok.mp h
  obtain ⟨hdistinct, h⟩ := Fallible.guard_ok.mp h
  obtain ⟨size, hsize, h⟩ := Fallible.bind_ok.mp h
  obtain ⟨⟨⟩, hlinks, h⟩ := Fallible.bind_ok.mp h
  cases h
  have hn : (entries.map (·.path)).Nodup := by
    rw [not_not] at hdistinct
    have heq := (List.dedup_sublist (entries.map (·.path))).eq_of_length (by rw [hdistinct, List.length_map])
    exact List.dedup_eq_self.mp heq
  have hnormal : ∀ e ∈ entries, IsPath e.path ∧
      (e.kind = .symlink → ∃ path, form.checkTarget e.path e.targetText = .ok path) := by
    intro e he
    obtain ⟨raw, -, hraw⟩ := Fallible.mem_mapM hread he
    exact normalizeEntry_ok hraw
  have hchecked : ∀ e ∈ [] ++ entries, (∀ f ∈ entries, f.path ++ [slash] <+: e.path → f.kind = .directory) ∧
      (e.kind = .hardlink → ∃ f ∈ entries, f.path = e.targetText ∧ f.kind = .file) := by
    refine Fallible.foldlM_keeps (P := fun done _ => ∀ e ∈ done,
      (∀ f ∈ entries, f.path ++ [slash] <+: e.path → f.kind = .directory) ∧
        (e.kind = .hardlink → ∃ f ∈ entries, f.path = e.targetText ∧ f.kind = .file)) ?_
      (fun e he => absurd he List.not_mem_nil) hsize
    intro done b entry b' hdone hstep e he
    rcases List.mem_append.mp he with he | he
    · exact hdone e he
    · exact List.mem_singleton.mp he ▸ checkEntry_ok hn hstep
  rw [List.nil_append] at hchecked
  exact ⟨fun e he => (hnormal e he).1, hn, fun e he => (hchecked e he).1, fun e he => (hchecked e he).2,
    fun e he => (hnormal e he).2, fun e he hkind => checkLink_ok (Fallible.forM_ok.mp hlinks e he) hkind⟩

/-! ## Links of accepted lists -/

theorem Accepted.entryAt (h : Accepted form entries) {entry : ArchiveEntry} (hmem : entry ∈ entries) :
    entryAt entries (components entry.path) = some entry := by
  cases hfind : Archive.entryAt entries (components entry.path) with
  | none =>
    have := List.find?_eq_none.mp hfind entry hmem
    simp at this
  | some other =>
    obtain ⟨hother, hpath⟩ := entryAt_some hfind
    rw [List.inj_on_of_nodup_map h.nodup hother hmem (components_injective hpath)]

/-- Above an entry there are no links. -/
theorem Accepted.no_link (h : Accepted form entries) {entry : ArchiveEntry} (hmem : entry ∈ entries)
    {before : List CodeUnits} (hbefore : before <+: components entry.path) (hne : before ≠ components entry.path) :
    linkAt entries before = none := by
  unfold linkAt
  cases hentry : Archive.entryAt entries before with
  | none => rfl
  | some other =>
    obtain ⟨hother, hpath⟩ := entryAt_some hentry
    obtain ⟨after, hafter⟩ := hbefore
    have hafter' : after ≠ [] := by
      rintro rfl
      exact hne (by rw [← hafter, List.append_nil])
    have hclean : ∀ c ∈ after, slash ∉ c := fun c hc =>
      slash_notMem (show c ∈ components entry.path from hafter ▸ List.mem_append_right _ hc)
    have hpath' : entry.path = other.path ++ slash :: joined after := by
      refine components_injective ?_
      rw [components_append, components_joined hclean hafter', hpath, hafter]
    have hprefix : other.path ++ [slash] <+: entry.path := ⟨joined after, by rw [hpath', List.append_assoc]; rfl⟩
    have hkind := h.parents entry hmem other hother hprefix
    simp [hkind]

/-- The place that holds an entry. -/
def holder (entry : ArchiveEntry) : List CodeUnits := (components entry.path).dropLast

/-- From the root a walk comes to a link, and to where the link starts. -/
theorem Accepted.to_link (h : Accepted form entries) {entry : ArchiveEntry} (hmem : entry ∈ entries)
    (hkind : entry.kind = .symlink) :
    ReflTransGen (Step (lexicalTree entries)) ⟨[], pathParts entry.path⟩
      ⟨(linkOf entry.targetText).start (holder entry), pathParts entry.targetText⟩ := by
  have hlast := List.dropLast_append_getLast (components_ne_nil entry.path)
  generalize hname : (components entry.path).getLast (components_ne_nil entry.path) = name at hlast
  have hlink : linkAt entries (holder entry ++ [name]) = some (linkOf entry.targetText) := by
    rw [holder, hlast, linkAt, h.entryAt hmem]
    simp [hkind]
  have hparts : pathParts entry.path = (holder entry).map .name ++ [.name name] := by
    rw [(h.paths entry hmem).parts, ← hlast, List.map_append]
    simp [holder]
  have hdown := walk_down (t := lexicalTree entries) (fun _ _ => trivial) [] (holder entry) [.name name] ?_
  · have hfollow : Step (lexicalTree entries) ⟨holder entry, [.name name]⟩
        ⟨(linkOf entry.targetText).start (holder entry), (linkOf entry.targetText).target ++ []⟩ := .follow hlink
    rw [List.append_nil] at hfollow
    rw [hparts]
    exact hdown.tail hfollow
  · intro before hbefore _
    rw [List.nil_append]
    refine h.no_link hmem (hbefore.trans (List.dropLast_prefix _)) fun heq => ?_
    have hlen := hbefore.length_le
    rw [heq, holder, List.length_dropLast] at hlen
    have hpos := List.length_pos_of_ne_nil (components_ne_nil entry.path)
    omega

/-- A link that is resolved from a start and an input is walked to the path that it resolves to. -/
theorem resolveCanonicalArchivePath_walks {start input : CodeUnits} {place : List CodeUnits}
    (hstart : (if start = [] then [] else components start) = place) (hplace : ∀ c ∈ place, IsName c)
    (hrooted : Rooted entries ⟨place, pathParts input⟩) {path : CodeUnits}
    (h : resolveCanonicalArchivePath start input entries = .ok path) :
    ReflTransGen (Step (lexicalTree entries)) ⟨place, pathParts input⟩ ⟨components path, []⟩ := by
  unfold resolveCanonicalArchivePath at h
  rw [hstart] at h
  obtain ⟨stack, hstack, h⟩ := Fallible.bind_ok.mp h
  obtain ⟨hne, h⟩ := Fallible.guard_ok.mp h
  have hclean : Resolution.Clean ⟨place, components input, []⟩ := ⟨hplace, fun c hc => slash_notMem hc⟩
  obtain ⟨hsteps, hnames⟩ := resolveLoop_walks hclean hrooted hstack
  rw [validateArchivePath_joined hne hnames h]
  exact hsteps

theorem Accepted.holder_isName (h : Accepted form entries) {entry : ArchiveEntry} (hmem : entry ∈ entries) :
    ∀ c ∈ holder entry, IsName c :=
  fun _ hc => (h.paths entry hmem).isName (List.mem_of_mem_dropLast hc)

end

end Omapkg.Server.Archive
