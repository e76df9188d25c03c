import Omapkg.Lib.Runes
import Omapkg.Lib.Fallible
import Omapkg.Client.Config
import Omapkg.Client.Resolve
/-!
# The order of the repositories in the configuration

pacman takes a package from the first repository that has it, so the order of
the sections counts. `rewriteConfig` refuses sections that stand in another
order than the signed one, but puts the repositories that have no section at
the end. `rewritten_in_order_iff` says when the signed order comes out.
-/

namespace Omapkg.Client

open Utf Fallible

/-! ## Lines -/

def lineName (line : List Rune) : Option Bytes := sectionName (trimNewline line)

/-- The names of the sections of a text, in order. -/
def lineNames (rs : List Rune) : List Bytes := (splitLines rs).filterMap lineName

/-- Lines up to one that no break ends, and what a text after them changes. -/
theorem splitLines_append (xs : List Rune) : ∃ ls last, (∀ r ∈ last, r.char ≠ '\n') ∧
    ∀ ys h t, splitLines ys = h :: t → splitLines (xs ++ ys) = ls ++ (last ++ h) :: t := by
  induction xs with
  | nil => exact ⟨[], [], by simp, fun ys h t hy => by simpa using hy⟩
  | cons x xs ih =>
    obtain ⟨ls, last, hlast, hsplit⟩ := ih
    by_cases hx : x.char = '\n'
    · refine ⟨[x] :: ls, last, hlast, fun ys h t hy => ?_⟩
      rw [List.cons_append, splitLines, if_pos hx, hsplit ys h t hy, List.cons_append]
    · cases ls with
      | nil =>
        refine ⟨[], x :: last, ?_, fun ys h t hy => ?_⟩
        · intro r hr
          rcases List.mem_cons.mp hr with rfl | hr
          · exact hx
          · exact hlast r hr
        · rw [List.cons_append, splitLines, if_neg hx, hsplit ys h t hy]
          rfl
      | cons l ls =>
        refine ⟨(x :: l) :: ls, last, hlast, fun ys h t hy => ?_⟩
        rw [List.cons_append, splitLines, if_neg hx, hsplit ys h t hy]
        rfl

theorem trimNewline_break (line : List Rune) {r : Rune} (hr : r.char = '\n') : trimNewline (line ++ [r]) = line := by
  simp [trimNewline, hr]

theorem trimNewline_unbroken {line : List Rune} (h : ∀ r ∈ line, r.char ≠ '\n') : trimNewline line = line := by
  unfold trimNewline
  cases hl : line.getLast? with
  | none => rfl
  | some r => exact if_neg (h r (List.mem_of_getLast? hl))

theorem lineName_nil : lineName [] = none := rfl

/-- A line break ends a line and nothing else. -/
theorem lineNames_break (xs ys : List Rune) {r : Rune} (hr : r.char = '\n') :
    lineNames (xs ++ r :: ys) = lineNames xs ++ lineNames ys := by
  obtain ⟨ls, last, hlast, hsplit⟩ := splitLines_append xs
  have hxs : splitLines xs = ls ++ [last] := by
    have h := hsplit [] [] [] rfl
    simpa using h
  have hall : splitLines (xs ++ r :: ys) = ls ++ (last ++ [r]) :: splitLines ys := by
    apply hsplit
    rw [splitLines, if_pos hr]
  unfold lineNames
  rw [hxs, hall, List.filterMap_append, List.filterMap_append, List.append_assoc]
  congr 1
  have hname : lineName (last ++ [r]) = lineName last := by
    rw [lineName, lineName, trimNewline_break last hr, trimNewline_unbroken hlast]
  cases hl : lineName last <;> simp [hname, hl]

/-- A line with no break is one line. -/
theorem lineNames_unbroken {rs : List Rune} (h : ∀ r ∈ rs, r.char ≠ '\n') : lineNames rs = (lineName rs).toList := by
  have hs : splitLines rs = [rs] := by
    induction rs with
    | nil => rfl
    | cons r rs ih =>
      rw [splitLines, if_neg (h r List.mem_cons_self), ih fun x hx => h x (List.mem_cons_of_mem _ hx)]
  cases hn : lineName rs <;> simp [lineNames, hs, hn]

/-! ## Names of a text -/

def sectionNames (text : Bytes) : List Bytes := (parseSections text).1.map ConfigSection.name

theorem collectSections_names (lines : List (List Rune)) :
    (collectSections lines).1.map ConfigSection.name = lines.filterMap lineName := by
  induction lines with
  | nil => rfl
  | cons line rest ih =>
    rw [collectSections]
    cases hn : sectionName (trimNewline line) with
    | none => simpa [lineName, hn] using ih
    | some name => simpa [lineName, hn] using ih

theorem sectionNames_eq (text : Bytes) : sectionNames text = lineNames (runes text) :=
  collectSections_names _

theorem sectionNames_break (a b : Bytes) : sectionNames (a ++ 0x0A :: b) = sectionNames a ++ sectionNames b := by
  simp only [sectionNames_eq]
  rw [runes_append_ascii (by decide), runes_ascii (by decide)]
  exact lineNames_break _ _ (by decide)

theorem newline_bytes {bs : Bytes} {r : Rune} (h : r ∈ runes bs) (hr : r.char = '\n') : r.bytes = [0x0A] := by
  rcases bytes_of_mem_runes h with hb | hb
  · rw [hb, hr]
    rfl
  · rw [hr] at hb
    exact absurd hb (by decide)

theorem mem_bytes {bs : Bytes} {r : Rune} (h : r ∈ runes bs) {b : UInt8} (hb : b ∈ r.bytes) : b ∈ bs := by
  rw [← runeBytes_runes bs]
  exact List.mem_flatMap.mpr ⟨r, h, hb⟩

theorem sectionNames_unbroken {text : Bytes} (h : (0x0A : UInt8) ∉ text) :
    sectionNames text = (sectionName (runes text)).toList := by
  have hr : ∀ r ∈ runes text, r.char ≠ '\n' := by
    intro r hr hc
    apply h
    apply mem_bytes hr
    rw [newline_bytes hr hc]
    exact List.mem_singleton_self _
  rw [sectionNames_eq, lineNames_unbroken hr, lineName, trimNewline_unbroken hr]

/-- What a line with a section's name is made of. -/
theorem sectionName_some {line : List Rune} {n : Bytes} (h : sectionName line = some n) :
    ∃ before l name r after, line = before ++ l :: (name ++ r :: after) ∧ before.all isBlank = true ∧
      l.char = '[' ∧ r.char = ']' ∧ after.all isBlank = true ∧ n = runeBytes name := by
  unfold sectionName at h
  have hsplit := List.takeWhile_append_dropWhile (p := isBlank) (l := line)
  have hbefore : (line.takeWhile isBlank).all isBlank = true := List.all_takeWhile
  cases hd : line.dropWhile isBlank with
  | nil => simp [hd] at h
  | cons l rest =>
    simp only [hd] at h
    have hrest := List.takeWhile_append_dropWhile (p := fun r : Rune => decide (r.char ≠ ']')) (l := rest)
    cases hc : rest.dropWhile fun r => decide (r.char ≠ ']') with
    | nil => rw [hc] at h; cases h
    | cons r after =>
      rw [hc] at h
      simp only at h
      split_ifs at h with hcond
      cases h
      have hr : r.char = ']' := by
        have hhead := List.head_dropWhile_not (p := fun r : Rune => decide (r.char ≠ ']')) (by rw [hc]; simp)
        simp only [hc, List.head_cons] at hhead
        simpa using hhead
      refine ⟨line.takeWhile isBlank, l, rest.takeWhile fun r => decide (r.char ≠ ']'), r, after, ?_, hbefore,
        hcond.1, hr, hcond.2.2, rfl⟩
      rw [← hc, hrest, ← hd, hsplit]

/-! ## Owned sections -/

def signedNames (repositories : List Repository) : List Bytes := repositories.map fun repository => utf8 repository.name

/-- The owned sections of a text, in the order pacman reads them. -/
def ownedOrder (repositories : List Repository) (text : Bytes) : List Bytes :=
  (sectionNames text).filter (signedNames repositories).contains

/-- A repository as `Resolve` lets it through. -/
structure Signed (repository : Repository) : Prop where
  name : isRepositoryName repository.name = true
  base : '\n' ∉ repository.packageBaseUrl.toList

section
variable {repositories : List Repository}

theorem ownedOrder_nil : ownedOrder repositories [] = [] := rfl

theorem ownedOrder_break (a b : Bytes) :
    ownedOrder repositories (a ++ 0x0A :: b) = ownedOrder repositories a ++ ownedOrder repositories b := by
  unfold ownedOrder
  rw [sectionNames_break, List.filter_append]

/-- A text is empty or ends with a line break. -/
def Closed (text : Bytes) : Prop := text = [] ∨ ∃ a, text = a ++ [0x0A]

theorem Closed.append {a b : Bytes} (ha : Closed a) (hb : Closed b) : Closed (a ++ b) := by
  rcases hb with rfl | ⟨b, rfl⟩
  · rwa [List.append_nil]
  · exact .inr ⟨a ++ b, by simp⟩

theorem ownedOrder_closed {a : Bytes} (ha : Closed a) (b : Bytes) :
    ownedOrder repositories (a ++ b) = ownedOrder repositories a ++ ownedOrder repositories b := by
  rcases ha with rfl | ⟨a, rfl⟩
  · rfl
  · rw [List.append_assoc, List.singleton_append, ownedOrder_break, ownedOrder_break, ownedOrder_nil, List.append_nil]

theorem isRepositoryName_char {name : String} (h : isRepositoryName name = true) {c : Char} (hc : c ∈ name.toList) :
    ('a' ≤ c ∧ c ≤ 'z') ∨ ('0' ≤ c ∧ c ≤ '9') ∨ c = '_' ∨ c = '-' := by
  unfold isRepositoryName at h
  cases hn : name.toList with
  | nil => simp [hn] at h
  | cons d ds =>
    simp only [hn, Bool.and_eq_true, decide_eq_true_eq, List.all_eq_true, Bool.or_eq_true] at h
    rw [hn] at hc
    rcases List.mem_cons.mp hc with rfl | hc
    · exact .inl h.1.1
    · rcases h.2 c hc with ((h | h) | h) | h
      · exact .inl h
      · exact .inr (.inl h)
      · exact .inr (.inr (.inl h))
      · exact .inr (.inr (.inr h))

/-- No name of a signed repository has a capital S. -/
theorem capital_not_mem (hs : ∀ repository ∈ repositories, Signed repository) {name : Bytes}
    (hn : name ∈ signedNames repositories) : (0x53 : UInt8) ∉ name := by
  obtain ⟨repository, hr, rfl⟩ := List.mem_map.mp hn
  intro hb
  obtain ⟨c, hc, hb⟩ := List.mem_flatMap.mp hb
  have hv := (utf8EncodeChar_ascii hb (by decide)).2
  have hS : c = 'S' := Char.toNat_inj.mp hv
  subst hS
  rcases isRepositoryName_char (hs repository hr).name hc with h | h | h | h <;> revert h <;> decide

theorem isBlank_ascii {r : Rune} (h : isBlank r = true) : r.char ≠ '\uFFFD' ∧ r.char.toNat ≠ 0x53 := by
  simp only [isBlank, List.contains_eq_mem, List.mem_cons, List.not_mem_nil, or_false, decide_eq_true_eq] at h
  rcases h with h | h | h | h | h <;> rw [h] <;> decide

/-- A line with a capital S that names a section has it in the name. -/
theorem capital_mem_name {text name : Bytes} (h : sectionName (runes text) = some name) (hS : (0x53 : UInt8) ∈ text) :
    (0x53 : UInt8) ∈ name := by
  obtain ⟨before, l, inner, r, after, hline, hbefore, hl, hr, hafter, rfl⟩ := sectionName_some h
  have hother : ∀ x ∈ runes text, (x.char ≠ '\uFFFD' ∧ x.char.toNat ≠ 0x53) → (0x53 : UInt8) ∉ x.bytes := by
    intro x hx hc hb
    rcases bytes_of_mem_runes hx with hbytes | hbytes
    · rw [hbytes] at hb
      exact hc.2 (utf8EncodeChar_ascii hb (by decide)).2
    · exact hc.1 hbytes
  rw [← runeBytes_runes text] at hS
  obtain ⟨x, hx, hb⟩ := List.mem_flatMap.mp hS
  have hx' := hline ▸ hx
  rw [List.all_eq_true] at hbefore hafter
  simp only [List.mem_append, List.mem_cons] at hx'
  rcases hx' with hx' | rfl | hx' | rfl | hx'
  · exact absurd hb (hother x hx (isBlank_ascii (hbefore x hx')))
  · exact absurd hb (hother x hx (by rw [hl]; decide))
  · exact List.mem_flatMap.mpr ⟨x, hx', hb⟩
  · exact absurd hb (hother x hx (by rw [hr]; decide))
  · exact absurd hb (hother x hx (isBlank_ascii (hafter x hx')))

theorem ownedOrder_capital (hs : ∀ repository ∈ repositories, Signed repository) {line : Bytes}
    (hn : (0x0A : UInt8) ∉ line) (hS : (0x53 : UInt8) ∈ line) : ownedOrder repositories line = [] := by
  unfold ownedOrder
  rw [sectionNames_unbroken hn]
  cases h : sectionName (runes line) with
  | none => rfl
  | some name =>
    have hno : name ∉ signedNames repositories := fun hname => capital_not_mem hs hname (capital_mem_name h hS)
    simp [hno]

/-- A text up to its last line break. -/
theorem exists_last_break (text : Bytes) :
    (0x0A : UInt8) ∉ text ∨ ∃ a line, text = a ++ 0x0A :: line ∧ (0x0A : UInt8) ∉ line := by
  by_cases h : (0x0A : UInt8) ∈ text
  · right
    obtain ⟨xs, ys, hxy, hx⟩ := List.eq_append_cons_of_mem (List.mem_reverse.mpr h)
    refine ⟨ys.reverse, xs.reverse, ?_, by simpa using hx⟩
    have h' := congrArg List.reverse hxy
    simpa using h'
  · exact .inl h

/-- A line that `rewriteConfig` writes adds no owned section, whatever
unfinished line it is written to. -/
theorem ownedOrder_written (hs : ∀ repository ∈ repositories, Signed repository) {text line : Bytes}
    (ht : ownedOrder repositories text = []) (hn : (0x0A : UInt8) ∉ line) (hS : (0x53 : UInt8) ∈ line) :
    ownedOrder repositories (text ++ (line ++ [0x0A])) = [] := by
  have hline : ∀ unfinished : Bytes, (0x0A : UInt8) ∉ unfinished →
      ownedOrder repositories (unfinished ++ line ++ [0x0A]) = [] := by
    intro unfinished hu
    rw [ownedOrder_break, ownedOrder_nil, List.append_nil]
    apply ownedOrder_capital hs
    · simp [hu, hn]
    · simp [hS]
  rcases exists_last_break text with h | ⟨a, unfinished, rfl, h⟩
  · rw [← List.append_assoc]
    exact hline text h
  · rw [ownedOrder_break, List.append_eq_nil_iff] at ht
    have hsplit : a ++ 0x0A :: unfinished ++ (line ++ [0x0A]) = a ++ 0x0A :: (unfinished ++ line ++ [0x0A]) := by simp
    rw [hsplit, ownedOrder_break, ht.1, hline unfinished h]
    rfl

theorem newline_not_mem_utf8 {s : String} (h : '\n' ∉ s.toList) : (0x0A : UInt8) ∉ utf8 s := by
  intro hb
  obtain ⟨c, hc, hb⟩ := List.mem_flatMap.mp hb
  have hv := (utf8EncodeChar_ascii hb (by decide)).2
  have hc' : c = '\n' := Char.toNat_inj.mp hv
  exact h (hc' ▸ hc)

theorem utf8_append (s t : String) : utf8 (s ++ t) = utf8 s ++ utf8 t := by
  simp [utf8, encode]

theorem utf8_newline : utf8 "\n" = [0x0A] := rfl

/-- The line that names the server of a signed repository. -/
theorem serverLine_eq {repository : Repository} (h : Signed repository) : ∃ line, serverLine repository = line ++ [0x0A] ∧
    (0x0A : UInt8) ∉ line ∧ (0x53 : UInt8) ∈ line := by
  refine ⟨utf8 ("Server = " ++ repository.packageBaseUrl), ?_, ?_, ?_⟩
  · rw [serverLine, utf8_append, utf8_newline]
  · apply newline_not_mem_utf8
    rw [String.toList_append, List.mem_append]
    rintro (h' | h')
    · revert h'
      decide
    · exact h.base h'
  · rw [utf8_append, List.mem_append]
    exact .inl (by decide)

theorem sigLevelLine_eq : ∃ line, sigLevelLine = line ++ [0x0A] ∧ (0x0A : UInt8) ∉ line ∧ (0x53 : UInt8) ∈ line :=
  ⟨utf8 "SigLevel = Required TrustedOnly", by decide, by decide, by decide⟩

end

/-! ## The lines of a text -/

def Ended (line : List Rune) : Prop := ∃ body r, line = body ++ [r] ∧ r.char = '\n'

/-- A line of a text that was read: at most one break, at its end. -/
structure IsLine (line : List Rune) : Prop where
  stable : runes (runeBytes line) = line
  shape : (∀ r ∈ line, r.char ≠ '\n') ∨ ∃ body r, line = body ++ [r] ∧ r.char = '\n' ∧ ∀ x ∈ body, x.char ≠ '\n'

/-- Every line but the last has its break. -/
def Finished : List (List Rune) → Prop
  | [] => True
  | [_] => True
  | line :: next :: rest => Ended line ∧ Finished (next :: rest)

theorem splitLines_ne_nil (rs : List Rune) : splitLines rs ≠ [] := by
  cases rs with
  | nil => simp [splitLines]
  | cons r rs => rw [splitLines]; split_ifs <;> [simp; split <;> simp]

theorem splitLines_flatten (rs : List Rune) : (splitLines rs).flatten = rs := by
  induction rs with
  | nil => rfl
  | cons r rs ih =>
    rw [splitLines]
    cases hs : splitLines rs with
    | nil => exact absurd hs (splitLines_ne_nil rs)
    | cons line lines =>
      rw [hs] at ih
      split_ifs
      · rw [List.flatten_cons, ih]
        rfl
      · rw [List.flatten_cons, List.cons_append, ← List.flatten_cons, ih]

theorem splitLines_finished (rs : List Rune) : Finished (splitLines rs) := by
  induction rs with
  | nil => trivial
  | cons r rs ih =>
    rw [splitLines]
    cases hs : splitLines rs with
    | nil => exact absurd hs (splitLines_ne_nil rs)
    | cons line lines =>
      rw [hs] at ih
      split_ifs with hr
      · exact ⟨⟨[], r, rfl, hr⟩, ih⟩
      · cases lines with
        | nil => trivial
        | cons next rest =>
          obtain ⟨⟨body, x, hline, hx⟩, hrest⟩ := ih
          exact ⟨⟨r :: body, x, by rw [hline]; rfl, hx⟩, hrest⟩

theorem splitLines_shape (rs : List Rune) : ∀ line ∈ splitLines rs, (∀ r ∈ line, r.char ≠ '\n') ∨
    ∃ body r, line = body ++ [r] ∧ r.char = '\n' ∧ ∀ x ∈ body, x.char ≠ '\n' := by
  induction rs with
  | nil => simp [splitLines]
  | cons r rs ih =>
    intro line hline
    rw [splitLines] at hline
    split_ifs at hline with hr
    · rcases List.mem_cons.mp hline with rfl | hline
      · exact .inr ⟨[], r, rfl, hr, by simp⟩
      · exact ih line hline
    · cases hs : splitLines rs with
      | nil => exact absurd hs (splitLines_ne_nil rs)
      | cons first lines =>
        rw [hs] at ih hline
        simp only at hline
        rcases List.mem_cons.mp hline with rfl | hline
        · rcases ih first List.mem_cons_self with h | ⟨body, x, rfl, hx, h⟩
          · left
            intro x hx
            rcases List.mem_cons.mp hx with rfl | hx
            · exact hr
            · exact h x hx
          · refine .inr ⟨r :: body, x, rfl, hx, ?_⟩
            intro y hy
            rcases List.mem_cons.mp hy with rfl | hy
            · exact hr
            · exact h y hy
        · exact ih line (List.mem_cons_of_mem _ hline)

theorem splitLines_isLine (text : Bytes) : ∀ line ∈ splitLines (runes text), IsLine line := by
  intro line hline
  refine ⟨?_, splitLines_shape _ line hline⟩
  obtain ⟨before, after, hsplit⟩ := List.append_of_mem hline
  have hrunes : runes text = before.flatten ++ (line ++ after.flatten) := by
    rw [← splitLines_flatten (runes text), hsplit]
    simp
  have hright := runes_runeBytes_right hrunes
  exact runes_runeBytes hright

theorem IsLine.names {line : List Rune} (h : IsLine line) : sectionNames (runeBytes line) = (lineName line).toList := by
  rw [sectionNames_eq, h.stable]
  rcases h.shape with hu | ⟨body, r, rfl, hr, hu⟩
  · exact lineNames_unbroken hu
  · rw [lineNames_break body [] hr, lineNames_unbroken hu]
    have hname : lineName (body ++ [r]) = lineName body := by
      rw [lineName, lineName, trimNewline_break body hr, trimNewline_unbroken hu]
    have hnil : lineNames [] = [] := rfl
    rw [hname, hnil, List.append_nil]

theorem IsLine.closed {line : List Rune} (h : IsLine line) (he : Ended line) : Closed (runeBytes line) := by
  obtain ⟨body, r, hline, hr⟩ := he
  have hmem : r ∈ runes (runeBytes line) := by
    rw [h.stable, hline]
    simp
  right
  refine ⟨runeBytes body, ?_⟩
  rw [hline, runeBytes_append, runeBytes_cons, newline_bytes hmem hr]
  rfl

theorem Finished.left {ls ms : List (List Rune)} (h : Finished (ls ++ ms)) (hm : ms ≠ []) : ∀ line ∈ ls, Ended line := by
  induction ls with
  | nil => simp
  | cons l ls ih =>
    cases hrest : ls ++ ms with
    | nil => exact absurd (List.append_eq_nil_iff.mp hrest).2 hm
    | cons next rest =>
      rw [List.cons_append, hrest] at h
      intro line hline
      rcases List.mem_cons.mp hline with rfl | hline
      · exact h.1
      · exact ih (hrest ▸ h.2) line hline

theorem Finished.tail {l : List Rune} {ls : List (List Rune)} (h : Finished (l :: ls)) : Finished ls := by
  cases ls with
  | nil => trivial
  | cons next rest => exact h.2

theorem Finished.right {ls ms : List (List Rune)} (h : Finished (ls ++ ms)) : Finished ms := by
  induction ls with
  | nil => exact h
  | cons l ls ih => exact ih h.tail

theorem finished_of_ended {ls : List (List Rune)} (h : ∀ line ∈ ls, Ended line) : Finished ls := by
  induction ls with
  | nil => trivial
  | cons l ls ih =>
    cases ls with
    | nil => trivial
    | cons next rest => exact ⟨h l List.mem_cons_self, ih fun x hx => h x (List.mem_cons_of_mem _ hx)⟩

theorem Finished.prefix {ls ms : List (List Rune)} (h : Finished (ls ++ ms)) : Finished ls := by
  by_cases hm : ms = []
  · rwa [hm, List.append_nil] at h
  · exact finished_of_ended (h.left hm)

theorem closed_lines {ls : List (List Rune)} (hl : ∀ line ∈ ls, IsLine line) (h : ∀ line ∈ ls, Ended line) :
    Closed (runeBytes ls.flatten) := by
  induction ls with
  | nil => exact .inl rfl
  | cons l ls ih =>
    rw [List.flatten_cons, runeBytes_append]
    apply Closed.append
    · exact (hl l List.mem_cons_self).closed (h l List.mem_cons_self)
    · exact ih (fun x hx => hl x (List.mem_cons_of_mem _ hx)) fun x hx => h x (List.mem_cons_of_mem _ hx)

section
variable {repositories : List Repository}

theorem ownedOrder_lines {ls : List (List Rune)} (hf : Finished ls) (hl : ∀ line ∈ ls, IsLine line) :
    ownedOrder repositories (runeBytes ls.flatten) =
      (ls.filterMap lineName).filter (signedNames repositories).contains := by
  induction ls with
  | nil => rfl
  | cons l ls ih =>
    have hline := hl l List.mem_cons_self
    have hrest := ih hf.tail fun x hx => hl x (List.mem_cons_of_mem _ hx)
    have hsplit : ownedOrder repositories (runeBytes (l :: ls).flatten) =
        ownedOrder repositories (runeBytes l) ++ ownedOrder repositories (runeBytes ls.flatten) := by
      rw [List.flatten_cons, runeBytes_append]
      by_cases hls : ls = []
      · subst hls
        simp [ownedOrder_nil]
      · have he : Ended l := @Finished.left [l] ls hf hls l List.mem_cons_self
        exact ownedOrder_closed (hline.closed he) _
    rw [hsplit, hrest, ownedOrder, hline.names]
    cases hn : lineName l with
    | none => simp [hn]
    | some name => rw [List.filterMap_cons_some hn, Option.toList_some, ← List.filter_append, List.singleton_append]

/-! ## Rendered sections -/

/-- What a section of a text that was read is. -/
structure IsSection (configSection : ConfigSection) : Prop where
  header : IsLine configSection.header
  name : lineName configSection.header = some configSection.name
  lines : ∀ line ∈ configSection.lines, IsLine line ∧ lineName line = none

def ConfigSection.all (configSection : ConfigSection) : List (List Rune) := configSection.header :: configSection.lines

theorem collectSections_spec (lines : List (List Rune)) (hl : ∀ line ∈ lines, IsLine line) :
    lines = (collectSections lines).2 ++ (collectSections lines).1.flatMap ConfigSection.all ∧
      (∀ configSection ∈ (collectSections lines).1, IsSection configSection) ∧
        ∀ line ∈ (collectSections lines).2, IsLine line ∧ lineName line = none := by
  induction lines with
  | nil => simp [collectSections]
  | cons line rest ih =>
    obtain ⟨hrest, hsections, hleading⟩ := ih fun x hx => hl x (List.mem_cons_of_mem _ hx)
    have hline := hl line List.mem_cons_self
    rw [collectSections]
    cases hn : sectionName (trimNewline line) with
    | none =>
      refine ⟨?_, hsections, ?_⟩
      · simp only [List.cons_append]
        rw [← hrest]
      · intro x hx
        rcases List.mem_cons.mp hx with rfl | hx
        · exact ⟨hline, hn⟩
        · exact hleading x hx
    | some name =>
      refine ⟨?_, ?_, by simp⟩
      · simp only [List.flatMap_cons, List.nil_append, ConfigSection.all, List.cons_append]
        rw [← hrest]
      · intro x hx
        rcases List.mem_cons.mp hx with rfl | hx
        · exact ⟨hline, hn, hleading⟩
        · exact hsections x hx

theorem closed_serverLine {repository : Repository} (h : Signed repository) : Closed (serverLine repository) := by
  obtain ⟨line, hline, -, -⟩ := serverLine_eq h
  exact .inr ⟨line, hline⟩

theorem ownedOrder_server (hs : ∀ repository ∈ repositories, Signed repository) {repository : Repository}
    (hr : repository ∈ repositories) {text : Bytes} (ht : ownedOrder repositories text = []) :
    ownedOrder repositories (text ++ serverLine repository) = [] := by
  obtain ⟨line, hline, hn, hS⟩ := serverLine_eq (hs repository hr)
  rw [hline]
  exact ownedOrder_written hs ht hn hS

theorem ownedOrder_sigLevel (hs : ∀ repository ∈ repositories, Signed repository) {text : Bytes}
    (ht : ownedOrder repositories text = []) : ownedOrder repositories (text ++ sigLevelLine) = [] := by
  obtain ⟨line, hline, hn, hS⟩ := sigLevelLine_eq
  rw [hline]
  exact ownedOrder_written hs ht hn hS

theorem renderLines_order (hs : ∀ repository ∈ repositories, Signed repository) {repository : Repository}
    (hr : repository ∈ repositories) {ls : List (List Rune)} (hf : Finished ls)
    (hl : ∀ line ∈ ls, IsLine line ∧ lineName line = none) (inserted : Bool) :
    ownedOrder repositories (renderLines repository inserted ls).1 = [] ∧
      ((∀ line ∈ ls, Ended line) → Closed (renderLines repository inserted ls).1) := by
  induction ls generalizing inserted with
  | nil => exact ⟨rfl, fun _ => .inl rfl⟩
  | cons line rest ih =>
    have ih' := ih hf.tail fun x hx => hl x (List.mem_cons_of_mem _ hx)
    have hrest : (∀ x ∈ line :: rest, Ended x) → ∀ x ∈ rest, Ended x := fun h x hx => h x (List.mem_cons_of_mem _ hx)
    obtain ⟨hline, hname⟩ := hl line List.mem_cons_self
    have hown : ownedOrder repositories (runeBytes line) = [] := by
      rw [ownedOrder, hline.names, hname]
      rfl
    by_cases hserver : isDirective "server" line = true
    · obtain ⟨h, hc⟩ := ih' true
      rw [renderLines, if_pos hserver]
      have hclosed : Closed (if inserted = true then [] else serverLine repository) := by
        split_ifs
        · exact .inl rfl
        · exact closed_serverLine (hs repository hr)
      have hown : ownedOrder repositories (if inserted = true then [] else serverLine repository) = [] := by
        split_ifs
        · rfl
        · exact @ownedOrder_server repositories hs repository hr [] rfl
      constructor
      · show ownedOrder repositories (_ ++ _) = []
        rw [ownedOrder_closed hclosed, hown, h]
        rfl
      · exact fun he => hclosed.append (hc (hrest he))
    · obtain ⟨h, hc⟩ := ih' inserted
      by_cases hinclude : isDirective "include" line = true
      · rw [renderLines, if_neg hserver, if_pos hinclude]
        exact ⟨h, fun he => hc (hrest he)⟩
      · rw [renderLines, if_neg hserver, if_neg hinclude]
        constructor
        · -- only the last line may lack its break
          cases rest with
          | nil => simpa [renderLines] using hown
          | cons next rest =>
            show ownedOrder repositories (runeBytes line ++ _) = []
            rw [ownedOrder_closed (hline.closed hf.1), hown, h]
            rfl
        · exact fun he => (hline.closed (he line List.mem_cons_self)).append (hc (hrest he))

theorem closed_of_endsWithNewline {text : Bytes} (h : endsWithNewline text = true) : Closed text := by
  simp only [endsWithNewline, decide_eq_true_eq] at h
  obtain ⟨a, ha⟩ := List.getLast?_eq_some_iff.mp h
  exact .inr ⟨a, ha⟩

/-- The text up to here, with a line break where it lacks one. -/
theorem ownedOrder_terminated (repositories : List Repository) (text : Bytes) :
    Closed (text ++ if endsWithNewline text = true then [] else [0x0A]) ∧
      ownedOrder repositories (text ++ if endsWithNewline text = true then [] else [0x0A]) =
        ownedOrder repositories text := by
  split_ifs with h
  · rw [List.append_nil]
    exact ⟨closed_of_endsWithNewline h, rfl⟩
  · rw [ownedOrder_break, ownedOrder_nil, List.append_nil]
    exact ⟨.inr ⟨text, rfl⟩, rfl⟩

theorem ownedOrder_header {configSection : ConfigSection} (h : IsSection configSection)
    (hn : configSection.name ∈ signedNames repositories) :
    ownedOrder repositories (runeBytes configSection.header) = [configSection.name] := by
  rw [ownedOrder, h.header.names, h.name]
  simp [hn]

theorem renderOwnedSection_order (hs : ∀ repository ∈ repositories, Signed repository) {repository : Repository}
    (hr : repository ∈ repositories) {configSection : ConfigSection} (h : IsSection configSection)
    (hn : configSection.name ∈ signedNames repositories) (hf : Finished configSection.all) :
    ownedOrder repositories (renderOwnedSection configSection repository) = [configSection.name] ∧
      ((∀ line ∈ configSection.all, Ended line) → Closed (renderOwnedSection configSection repository)) := by
  obtain ⟨hheader, hheaderOrder⟩ := ownedOrder_terminated repositories (runeBytes configSection.header)
  rw [ownedOrder_header h hn] at hheaderOrder
  obtain ⟨hbody, hbodyClosed⟩ := renderLines_order hs hr hf.tail h.lines false
  unfold renderOwnedSection
  simp only [List.append_assoc]
  rw [← List.append_assoc (runeBytes configSection.header)]
  constructor
  · rw [ownedOrder_closed hheader, hheaderOrder, ← List.append_assoc]
    have hsig : ownedOrder repositories ((renderLines repository false configSection.lines).1 ++
        if configSection.lines.any (isDirective "siglevel") = true then [] else sigLevelLine) = [] := by
      split_ifs
      · rwa [List.append_nil]
      · exact ownedOrder_sigLevel hs hbody
    have hserver : ownedOrder repositories ((renderLines repository false configSection.lines).1 ++
        (if configSection.lines.any (isDirective "siglevel") = true then [] else sigLevelLine) ++
          if (renderLines repository false configSection.lines).2 = true then [] else serverLine repository) = [] := by
      by_cases hinserted : (renderLines repository false configSection.lines).2 = true
      · rwa [if_pos hinserted, List.append_nil]
      · rw [if_neg hinserted]
        exact ownedOrder_server hs hr hsig
    rw [hserver, List.append_nil]
  · intro he
    apply hheader.append
    apply (hbodyClosed fun line hline => he line (List.mem_cons_of_mem _ hline)).append
    obtain ⟨line, hline, -, -⟩ := sigLevelLine_eq
    apply Closed.append
    · split_ifs
      · exact .inl rfl
      · exact .inr ⟨line, hline⟩
    · split_ifs
      · exact .inl rfl
      · exact closed_serverLine (hs repository hr)

theorem findOwned_some {name : Bytes} {repository : Repository} (h : findOwned repositories name = some repository) :
    repository ∈ repositories ∧ utf8 repository.name = name :=
  ⟨List.mem_of_find?_eq_some h, by simpa using List.find?_some h⟩

theorem findOwned_none {name : Bytes} (h : findOwned repositories name = none) : name ∉ signedNames repositories := by
  intro hn
  obtain ⟨repository, hr, hname⟩ := List.mem_map.mp hn
  have hno := List.find?_eq_none.mp h repository hr
  simp [hname] at hno

theorem renderSection_order (hs : ∀ repository ∈ repositories, Signed repository) {configSection : ConfigSection}
    (h : IsSection configSection) (hf : Finished configSection.all) :
    ownedOrder repositories (renderSection repositories configSection) =
        [configSection.name].filter (signedNames repositories).contains ∧
      ((∀ line ∈ configSection.all, Ended line) → Closed (renderSection repositories configSection)) := by
  unfold renderSection
  cases hfind : findOwned repositories configSection.name with
  | some repository =>
    obtain ⟨hr, hname⟩ := findOwned_some hfind
    have hn : configSection.name ∈ signedNames repositories := List.mem_map.mpr ⟨repository, hr, hname⟩
    obtain ⟨horder, hclosed⟩ := renderOwnedSection_order hs hr h hn hf
    exact ⟨by rw [horder]; simp [hn], hclosed⟩
  | none =>
    have hl : ∀ line ∈ configSection.all, IsLine line := by
      intro line hline
      rcases List.mem_cons.mp hline with rfl | hline
      · exact h.header
      · exact (h.lines line hline).1
    have hflat : runeBytes configSection.header ++ runeBytes configSection.lines.flatten =
        runeBytes configSection.all.flatten := by rw [ConfigSection.all, List.flatten_cons, runeBytes_append]
    simp only
    rw [hflat]
    refine ⟨?_, closed_lines hl⟩
    have hnone : configSection.lines.filterMap lineName = [] := by
      rw [List.filterMap_eq_nil_iff]
      exact fun line hline => (h.lines line hline).2
    rw [ownedOrder_lines hf hl, ConfigSection.all, List.filterMap_cons_some h.name, hnone]

/-- The sections stay in their order. -/
theorem renderSections_order (hs : ∀ repository ∈ repositories, Signed repository) {sections : List ConfigSection}
    (h : ∀ configSection ∈ sections, IsSection configSection) (hf : Finished (sections.flatMap ConfigSection.all)) :
    ownedOrder repositories (sections.flatMap (renderSection repositories)) =
      (sections.map ConfigSection.name).filter (signedNames repositories).contains := by
  induction sections with
  | nil => rfl
  | cons configSection rest ih =>
    rw [List.flatMap_cons] at hf ⊢
    obtain ⟨horder, hclosed⟩ := renderSection_order hs (h configSection List.mem_cons_self) hf.prefix
    have hrest := ih (fun x hx => h x (List.mem_cons_of_mem _ hx)) hf.right
    have hsplit : ownedOrder repositories
        (renderSection repositories configSection ++ rest.flatMap (renderSection repositories)) =
          ownedOrder repositories (renderSection repositories configSection) ++
            ownedOrder repositories (rest.flatMap (renderSection repositories)) := by
      cases rest with
      | nil => simp [ownedOrder_nil]
      | cons next rest => exact ownedOrder_closed (hclosed (hf.left (by simp [ConfigSection.all]))) _
    rw [hsplit, horder, hrest, List.map_cons, ← List.filter_append, List.singleton_append]

/-! ## Missing sections -/

/-- The header that is written for a missing section. -/
theorem header_name {repository : Repository} (h : Signed repository) :
    (0x0A : UInt8) ∉ utf8 ("[" ++ repository.name ++ "]") ∧
      sectionName (runes (utf8 ("[" ++ repository.name ++ "]"))) = some (utf8 repository.name) := by
  have hchar : ∀ c ∈ repository.name.toList, c ≠ ']' ∧ c ≠ '\n' := by
    intro c hc
    constructor <;> rintro rfl <;>
      rcases isRepositoryName_char h.name hc with h | h | h | h <;> revert h <;> decide
  have hne : repository.name.toList ≠ [] := by
    intro hnil
    have hname := h.name
    simp [isRepositoryName, hnil] at hname
  constructor
  · apply newline_not_mem_utf8
    simp only [String.toList_append, List.mem_append, not_or]
    exact ⟨⟨by decide, fun hc => (hchar _ hc).2 rfl⟩, by decide⟩
  · have hlist : ("[" ++ repository.name ++ "]").toList = '[' :: (repository.name.toList ++ [']']) := by
      simp
    rw [utf8, runes_encode, hlist, List.map_cons, List.map_append]
    have hpass : ∀ r ∈ repository.name.toList.map fun c => (⟨c, String.utf8EncodeChar c⟩ : Rune),
        decide (r.char ≠ ']') = true := by
      intro r hr
      obtain ⟨c, hc, rfl⟩ := List.mem_map.mp hr
      exact decide_eq_true (hchar c hc).1
    unfold sectionName
    rw [List.dropWhile_cons_of_neg (by decide)]
    simp only
    rw [List.takeWhile_append_of_pos hpass, List.dropWhile_append_of_pos hpass]
    have hbytes : runeBytes (repository.name.toList.map fun c => (⟨c, String.utf8EncodeChar c⟩ : Rune)) =
        utf8 repository.name := by simp [runeBytes, utf8, encode, List.flatMap_map]
    simp [hbytes, hne]

theorem renderMissingSection_eq (repository : Repository) : renderMissingSection repository =
    utf8 ("[" ++ repository.name ++ "]") ++ 0x0A :: (sigLevelLine ++ serverLine repository) := by
  have htext : "[" ++ repository.name ++ "]\n" = "[" ++ repository.name ++ "]" ++ "\n" := by
    apply String.toList_injective
    simp
  rw [renderMissingSection, htext, utf8_append, utf8_newline]
  simp

theorem ownedOrder_own_header (hs : ∀ repository ∈ repositories, Signed repository) {repository : Repository}
    (hr : repository ∈ repositories) :
    ownedOrder repositories (utf8 ("[" ++ repository.name ++ "]")) = [utf8 repository.name] := by
  obtain ⟨hbreak, hname⟩ := header_name (hs repository hr)
  have hn : utf8 repository.name ∈ signedNames repositories := List.mem_map.mpr ⟨repository, hr, rfl⟩
  rw [ownedOrder, sectionNames_unbroken hbreak, hname]
  simp [hn]

theorem renderMissingSection_order (hs : ∀ repository ∈ repositories, Signed repository) {repository : Repository}
    (hr : repository ∈ repositories) :
    ownedOrder repositories (renderMissingSection repository) = [utf8 repository.name] := by
  have hlines : ownedOrder repositories (sigLevelLine ++ serverLine repository) = [] := by
    have hlevel : ownedOrder repositories ([] ++ sigLevelLine) = [] := ownedOrder_sigLevel hs rfl
    exact ownedOrder_server hs hr hlevel
  rw [renderMissingSection_eq, ownedOrder_break, ownedOrder_own_header hs hr, hlines]
  rfl

theorem appendMissing_order (hs : ∀ repository ∈ repositories, Signed repository) {repository : Repository}
    (hr : repository ∈ repositories) (output : Bytes) :
    ownedOrder repositories (appendMissing output repository) =
      ownedOrder repositories output ++ [utf8 repository.name] := by
  have hsection := renderMissingSection_order hs hr
  unfold appendMissing
  by_cases hempty : output = []
  · subst hempty
    simpa [ownedOrder_nil] using hsection
  · cases hnl : endsWithNewline output with
    | true =>
      simp only [hempty, ne_eq, not_false_eq_true, Bool.true_eq_false, and_false, if_false, if_true]
      rw [List.append_assoc, List.singleton_append, ownedOrder_break, hsection]
    | false =>
      simp only [hempty, ne_eq, not_false_eq_true, and_self, if_true, List.append_eq_nil_iff, List.cons_ne_self]
      rw [List.append_assoc, List.singleton_append, ownedOrder_break, ownedOrder_break, ownedOrder_nil, List.append_nil,
        hsection]

theorem appendMissing_fold (hs : ∀ repository ∈ repositories, Signed repository) {missing : List Repository}
    (hm : ∀ repository ∈ missing, repository ∈ repositories) (output : Bytes) :
    ownedOrder repositories (missing.foldl appendMissing output) =
      ownedOrder repositories output ++ signedNames missing := by
  induction missing generalizing output with
  | nil => simp [signedNames]
  | cons repository rest ih =>
    rw [List.foldl_cons, ih (fun x hx => hm x (List.mem_cons_of_mem _ hx)),
      appendMissing_order hs (hm repository List.mem_cons_self), List.append_assoc]
    rfl

/-! ## The order -/

theorem checkSections_present {sections : List ConfigSection} {seen present : List Bytes}
    (h : checkSections repositories seen sections = .ok present) :
    present = (sections.map ConfigSection.name).filter (signedNames repositories).contains := by
  induction sections generalizing seen present with
  | nil =>
    cases h
    rfl
  | cons configSection rest ih =>
    rw [checkSections] at h
    cases hfind : findOwned repositories configSection.name with
    | none =>
      have hno := findOwned_none hfind
      simp only [hfind] at h
      split_ifs at h
      rw [ih h]
      simp [hno]
    | some repository =>
      obtain ⟨hr, hname⟩ := findOwned_some hfind
      have hn : configSection.name ∈ signedNames repositories := List.mem_map.mpr ⟨repository, hr, hname⟩
      simp only [hfind] at h
      split_ifs at h
      cases hrest : checkSections repositories (configSection.name :: seen) rest with
      | error e => simp [hrest] at h
      | ok names =>
        simp only [hrest, Except.ok.injEq] at h
        rw [← h, ih hrest]
        simp [hn]

theorem duplicateName_none {seen : List String} (h : duplicateName seen repositories = none) :
    (repositories.map Repository.name).Nodup ∧ ∀ repository ∈ repositories, repository.name ∉ seen := by
  induction repositories generalizing seen with
  | nil => simp
  | cons repository rest ih =>
    rw [duplicateName] at h
    split_ifs at h with hseen
    obtain ⟨hnodup, hrest⟩ := ih h
    constructor
    · rw [List.map_cons, List.nodup_cons]
      refine ⟨?_, hnodup⟩
      intro hmem
      obtain ⟨other, hother, hname⟩ := List.mem_map.mp hmem
      exact hrest other hother (by simp [hname])
    · intro x hx
      rcases List.mem_cons.mp hx with rfl | hx
      · exact hseen
      · exact fun hmem => hrest x hx (List.mem_cons_of_mem _ hmem)

theorem utf8_injective {s t : String} (h : utf8 s = utf8 t) : s = t :=
  String.toList_injective (encode_injective h)

theorem signedNames_nodup (h : (repositories.map Repository.name).Nodup) : (signedNames repositories).Nodup := by
  have hmap : signedNames repositories = (repositories.map Repository.name).map utf8 := by simp [signedNames]
  rw [hmap]
  exact h.map fun s t => utf8_injective

/-- The sections that were there come first, the missing ones after them. -/
theorem rewriteConfig_order (hs : ∀ repository ∈ repositories, Signed repository) {input output : Bytes}
    (h : rewriteConfig input repositories = .ok output) :
    (signedNames repositories).Nodup ∧ ownedOrder repositories output = ownedOrder repositories input ++
      (signedNames repositories).filter fun name => name ∉ ownedOrder repositories input := by
  unfold rewriteConfig at h
  split_ifs at h with hne
  simp only at h
  split_ifs at h
  cases hdup : duplicateName [] repositories with
  | some name => simp [hdup] at h
  | none =>
    simp only [hdup] at h
    cases hcheck : checkSections repositories [] (parseSections input).1 with
    | error e => simp [hcheck] at h
    | ok present =>
      simp only [hcheck] at h
      split_ifs at h
      have hpresent : ownedOrder repositories input = present := (checkSections_present hcheck).symm
      have hlines := splitLines_isLine input
      obtain ⟨hsplit, hsections, hleading⟩ := collectSections_spec _ hlines
      have hfinished := splitLines_finished (runes input)
      rw [hsplit] at hfinished
      have hparse : parseSections input = ((collectSections (splitLines (runes input))).1,
          (collectSections (splitLines (runes input))).2.flatten) := rfl
      have hlead : ownedOrder repositories (runeBytes (parseSections input).2) = [] := by
        rw [hparse, ownedOrder_lines hfinished.prefix fun line hline => (hleading line hline).1]
        have hnone : (collectSections (splitLines (runes input))).2.filterMap lineName = [] := by
          rw [List.filterMap_eq_nil_iff]
          exact fun line hline => (hleading line hline).2
        rw [hnone]
        rfl
      have hbody : ownedOrder repositories (runeBytes (parseSections input).2 ++
          (parseSections input).1.flatMap (renderSection repositories)) = present := by
        have hrest := renderSections_order hs hsections hfinished.right
        rw [hparse] at hlead ⊢
        cases hcollected : (collectSections (splitLines (runes input))).1 with
        | nil =>
          rw [List.flatMap_nil, List.append_nil, hlead, ← hpresent, ownedOrder, sectionNames, hparse, hcollected]
          rfl
        | cons first others =>
          have hended := hfinished.left (by simp [hcollected, ConfigSection.all])
          rw [← hcollected, ownedOrder_closed (closed_lines (fun line hline => (hleading line hline).1) hended), hlead,
            hrest, List.nil_append, ← hpresent]
          rfl
      cases h
      refine ⟨signedNames_nodup (duplicateName_none hdup).1, ?_⟩
      rw [appendMissing_fold hs (fun x hx => (List.mem_filter.mp hx).1), hbody, hpresent]
      congr 1
      rw [signedNames, signedNames, List.filter_map]
      rfl

end

/-- What `Resolve` asks of a repository. -/
theorem validate_signed {literal : List Char → Option (List Char)} {manifestUrl : String} {tx : Transaction}
    {repository : Repository} (h : validateRepositoryURL literal manifestUrl tx repository = .ok ()) :
    Signed repository := by
  unfold validateRepositoryURL at h
  obtain ⟨hname, h⟩ := guard_ok.mp h
  obtain ⟨-, h⟩ := guard_ok.mp h
  obtain ⟨⟨⟩, hurls, -⟩ := bind_ok.mp h
  have hbase : validatePinnedUrl literal manifestUrl (.errorf "repository %q URL is mutable" [repository.name])
      repository.packageBaseUrl = .ok () := by
    simp only [List.forM] at hurls
    obtain ⟨⟨⟩, -, hurls⟩ := bind_ok.mp hurls
    obtain ⟨⟨⟩, -, hurls⟩ := bind_ok.mp hurls
    obtain ⟨⟨⟩, hurl, -⟩ := bind_ok.mp hurls
    exact hurl
  unfold validatePinnedUrl at hbase
  obtain ⟨-, hbase⟩ := guard_ok.mp hbase
  obtain ⟨⟨⟩, hurl, -⟩ := bind_ok.mp hbase
  unfold validateURL validateURLMode at hurl
  obtain ⟨hsafe, -⟩ := guard_ok.mp hurl
  constructor
  · by_contra hno
    exact hname (.inl (by simpa using hno))
  · intro hbreak
    apply hsafe
    rw [List.any_eq_true]
    exact ⟨'\n', hbreak, by decide⟩

/-- The signed order comes out exactly when the sections that were there are
the first repositories of the signed list. -/
theorem rewritten_in_order_iff (literal : List Char → Option (List Char)) (manifestUrl : String) (tx : Transaction)
    (hsigned : ∀ repository ∈ tx.repositories, validateRepositoryURL literal manifestUrl tx repository = .ok ())
    (input output : Bytes) (h : rewriteConfig input tx.repositories = .ok output) :
    ownedOrder tx.repositories output = signedNames tx.repositories ↔
      ownedOrder tx.repositories input <+: signedNames tx.repositories := by
  obtain ⟨hnodup, horder⟩ := rewriteConfig_order (fun x hx => validate_signed (hsigned x hx)) h
  rw [horder]
  constructor
  · intro heq
    exact ⟨_, heq⟩
  · rintro ⟨rest, hrest⟩
    rw [← hrest] at hnodup
    obtain ⟨-, -, hdisjoint⟩ := List.nodup_append.mp hnodup
    have hpresent : (ownedOrder tx.repositories input).filter
        (fun name => name ∉ ownedOrder tx.repositories input) = [] := by
      rw [List.filter_eq_nil_iff]
      intro name hname
      simpa using hname
    have hmissing : rest.filter (fun name => name ∉ ownedOrder tx.repositories input) = rest := by
      rw [List.filter_eq_self]
      intro name hname
      rw [decide_eq_true_eq]
      intro hin
      exact hdisjoint name hin name hname rfl
    rw [← hrest, List.filter_append, hpresent, hmissing, List.nil_append]

def sampleRepository (name : String) : Repository :=
  ⟨name, "x86_64", "".pushn 'a' 64, "https://repo.invalid/r/" ++ name ++ "/" ++ name ++ ".db",
    "https://repo.invalid/r/" ++ name ++ "/" ++ name ++ ".db.sig", "https://repo.invalid/r/" ++ name⟩

def sampleReference : ManifestRef := ⟨"", "", "", "", 0, "", ""⟩

/-- A transaction of two repositories, the first of them `core`. -/
def sampleTransaction : Transaction where
  kind := "resolved-transaction"
  lane := "transaction"
  channel := "stable"
  releaseId := "tx-1"
  architecture := "x86_64"
  architectures := ["x86_64"]
  identity := ⟨"1", "1"⟩
  parent := ⟨"", 0⟩
  createdAt := 0
  expiresAt := 1
  sequence := 1
  repositories := [sampleRepository "core", sampleRepository "extra"]
  compatibility := ⟨"", [], "", ""⟩
  recovery := ⟨"", none, false, "", []⟩
  systemRef := sampleReference
  oprRef := sampleReference
  rollbackRef := none
  packageChunks := []
  packageCount := 0
  digest := ""
  raw := []

theorem sample_signed : ∀ repository ∈ sampleTransaction.repositories,
    validateRepositoryURL (fun _ => none) "https://repo.invalid/m" sampleTransaction repository = .ok () := by
  intro repository hr
  simp only [sampleTransaction, List.mem_cons, List.not_mem_nil, or_false] at hr
  rcases hr with rfl | rfl <;> decide +kernel

/-- With only the first repository there, the second comes after it. -/
theorem rewritten_in_order_core : ∃ output,
    rewriteConfig (utf8 "[core]\n") sampleTransaction.repositories = .ok output ∧
      ownedOrder sampleTransaction.repositories output = signedNames sampleTransaction.repositories :=
  ⟨_, rfl, (rewritten_in_order_iff (fun _ => none) "https://repo.invalid/m" sampleTransaction sample_signed
    (utf8 "[core]\n") _ rfl).mpr (by decide +kernel)⟩

/-- With only the second repository there, the first comes after it. -/
theorem missing_core_goes_last : ∃ (tx : Transaction) (output : Bytes),
    (∀ repository ∈ tx.repositories,
      validateRepositoryURL (fun _ => none) "https://repo.invalid/m" tx repository = .ok ()) ∧
    rewriteConfig (utf8 "[extra]\n") tx.repositories = .ok output ∧
    signedNames tx.repositories = [utf8 "core", utf8 "extra"] ∧
    ownedOrder tx.repositories output = [utf8 "extra", utf8 "core"] :=
  ⟨sampleTransaction, _, sample_signed, rfl, by decide +kernel, by decide +kernel⟩

end Omapkg.Client
