import Omapkg.Client.ConfigOrder
/-!
# Scanning a configuration

What is kept of a configuration that is read line by line: for each section a value
that its header starts and each further line changes. A text that a line break closes
is scanned before what comes after it.
-/

namespace Omapkg.Client

open Utf

/-- What is kept of a section; an empty line changes nothing. -/
structure Scan (β : Type) where
  start : List Rune → β
  next : β → List Rune → β
  next_nil : ∀ b, next b [] = b

variable {β : Type} {σ : Scan β}

/-- Nor does a line break. -/
structure Scan.Unbroken (σ : Scan β) : Prop where
  start : ∀ line, (∀ r ∈ line, r.char ≠ '\n') → σ.start (line ++ [⟨'\n', [0x0A]⟩]) = σ.start line
  next : ∀ b line, (∀ r ∈ line, r.char ≠ '\n') → σ.next b (line ++ [⟨'\n', [0x0A]⟩]) = σ.next b line

/-- The sections so far, the last first. -/
abbrev Scanned (β : Type) := List (Bytes × β)

def scanStep (σ : Scan β) (st : Scanned β) (line : List Rune) : Scanned β :=
  match lineName line with
  | some name => (name, σ.start line) :: st
  | none =>
    match st with
    | [] => []
    | (name, b) :: rest => (name, σ.next b line) :: rest

def scanLines (σ : Scan β) (st : Scanned β) (lines : List (List Rune)) : Scanned β := lines.foldl (scanStep σ) st

def scanText (σ : Scan β) (st : Scanned β) (text : Bytes) : Scanned β := scanLines σ st (splitLines (runes text))

/-- What is kept of one section. -/
def Scan.section (σ : Scan β) (s : ConfigSection) : β := s.lines.foldl σ.next (σ.start s.header)

/-- Lines that name no section. -/
def extend (σ : Scan β) (st : Scanned β) (lines : List (List Rune)) : Scanned β :=
  match st with
  | [] => []
  | (name, b) :: rest => (name, lines.foldl σ.next b) :: rest

theorem scanStep_named {line : List Rune} {name : Bytes} (h : lineName line = some name) (st : Scanned β) :
    scanStep σ st line = (name, σ.start line) :: st := by
  simp [scanStep, h]

theorem scanStep_unnamed {line : List Rune} (h : lineName line = none) (name : Bytes) (b : β) (st : Scanned β) :
    scanStep σ ((name, b) :: st) line = (name, σ.next b line) :: st := by
  simp [scanStep, h]

theorem scanStep_nil (st : Scanned β) : scanStep σ st [] = st := by
  cases st <;> simp [scanStep, lineName_nil, σ.next_nil]

theorem scanLines_eq (st : Scanned β) (lines : List (List Rune)) :
    scanLines σ st lines =
      ((collectSections lines).1.map fun s => (s.name, σ.section s)).reverse ++ extend σ st (collectSections lines).2 := by
  induction lines generalizing st with
  | nil =>
    cases st <;> rfl
  | cons line rest ih =>
    rw [scanLines, List.foldl_cons, ← scanLines, ih, collectSections]
    cases hname : sectionName (trimNewline line) with
    | some name =>
      have hstep : scanStep σ st line = (name, σ.start line) :: st := scanStep_named hname st
      rw [hstep]
      cases st <;> simp [extend, Scan.section]
    | none =>
      cases st with
      | nil =>
        have hstep : scanStep σ [] line = [] := by simp [scanStep, lineName, hname]
        rw [hstep]
        simp [extend]
      | cons p st =>
        have hstep : scanStep σ (p :: st) line = (p.1, σ.next p.2 line) :: st := scanStep_unnamed hname p.1 p.2 st
        rw [hstep]
        simp [extend]

theorem scanText_sections (text : Bytes) :
    scanText σ [] text = ((parseSections text).1.map fun s => (s.name, σ.section s)).reverse := by
  rw [scanText, scanLines_eq]
  simp [extend, parseSections]

theorem scanText_nil (st : Scanned β) : scanText σ st [] = st := scanStep_nil st

/-- The lines of a text up to a line break, and the rest of it. -/
theorem splitLines_break (a b : Bytes) : ∃ ls last, (∀ r ∈ last, r.char ≠ '\n') ∧ splitLines (runes a) = ls ++ [last] ∧
    splitLines (runes (a ++ 0x0A :: b)) = ls ++ (last ++ [⟨'\n', [0x0A]⟩]) :: splitLines (runes b) := by
  obtain ⟨ls, last, hlast, hsplit⟩ := splitLines_append (runes a)
  have hnl : runes (0x0A :: b) = ⟨'\n', [0x0A]⟩ :: runes b := runes_ascii (by decide) b
  refine ⟨ls, last, hlast, by simpa using hsplit [] [] [] rfl, ?_⟩
  rw [runes_append_ascii (by decide), hnl]
  exact hsplit _ _ _ (by rw [splitLines, if_pos rfl])

theorem scanText_closed (st : Scanned β) {a : Bytes} (ha : Closed a) (b : Bytes) :
    scanText σ st (a ++ b) = scanText σ (scanText σ st a) b := by
  rcases ha with rfl | ⟨a, rfl⟩
  · rw [scanText_nil]
    rfl
  · obtain ⟨ls, last, -, ha, hb⟩ := splitLines_break a b
    obtain ⟨ls', last', -, ha', hb'⟩ := splitLines_break a []
    obtain ⟨rfl, hlast⟩ := List.append_inj' (ha'.symm.trans ha) rfl
    obtain rfl : last' = last := by simpa using hlast
    have hempty : splitLines (runes []) = [[]] := rfl
    rw [List.append_assoc, List.singleton_append, scanText, scanText, scanText, hb, hb', hempty]
    simp only [scanLines, List.foldl_append, List.foldl_cons, List.foldl_nil, scanStep_nil]

theorem lineName_broken {line : List Rune} (h : ∀ r ∈ line, r.char ≠ '\n') :
    lineName (line ++ [⟨'\n', [0x0A]⟩]) = lineName line := by
  rw [lineName, lineName, trimNewline_break line rfl, trimNewline_unbroken h]

theorem scanStep_broken (hσ : σ.Unbroken) {line : List Rune} (h : ∀ r ∈ line, r.char ≠ '\n') (st : Scanned β) :
    scanStep σ st (line ++ [⟨'\n', [0x0A]⟩]) = scanStep σ st line := by
  unfold scanStep
  rw [lineName_broken h]
  cases lineName line with
  | some name => simp only [hσ.start line h]
  | none =>
    cases st with
    | nil => rfl
    | cons p st => simp only [hσ.next p.2 line h]

/-- A line break ends a line. -/
theorem scanText_break (hσ : σ.Unbroken) (st : Scanned β) (a b : Bytes) :
    scanText σ st (a ++ 0x0A :: b) = scanText σ (scanText σ st a) b := by
  obtain ⟨ls, last, hlast, ha, hb⟩ := splitLines_break a b
  rw [scanText, scanText, scanText, ha, hb]
  simp only [scanLines, List.foldl_append, List.foldl_cons, List.foldl_nil, scanStep_broken hσ hlast]

theorem scanText_line (st : Scanned β) {line : List Rune} (h : IsLine line) :
    scanText σ st (runeBytes line) = scanStep σ st line := by
  have hunbroken {body : List Rune} (hu : ∀ r ∈ body, r.char ≠ '\n') : splitLines body = [body] := by
    induction body with
    | nil => rfl
    | cons r body ih =>
      rw [splitLines, if_neg (hu r List.mem_cons_self), ih fun x hx => hu x (List.mem_cons_of_mem _ hx)]
  rw [scanText, h.stable]
  rcases h.shape with hu | ⟨body, r, rfl, hr, hu⟩
  · rw [hunbroken hu]
    rfl
  · have hsplit : splitLines (body ++ [r]) = [body ++ [r], []] := by
      obtain ⟨ls, last, hlast, hsplit⟩ := splitLines_append body
      have hbody := hsplit [] [] [] rfl
      rw [List.append_nil, hunbroken hu] at hbody
      have hls : ls = [] ∧ last = body := by
        cases ls with
        | nil => simpa using hbody.symm
        | cons l ls => simp at hbody
      obtain ⟨rfl, rfl⟩ := hls
      exact hsplit [r] [r] [[]] (by rw [splitLines, if_pos hr]; rfl)
    rw [hsplit]
    simp [scanLines, scanStep_nil]

theorem scanText_lines {ls : List (List Rune)} (hf : Finished ls) (hl : ∀ line ∈ ls, IsLine line) (st : Scanned β) :
    scanText σ st (runeBytes ls.flatten) = scanLines σ st ls := by
  induction ls generalizing st with
  | nil => exact scanText_nil st
  | cons line rest ih =>
    have hline := hl line List.mem_cons_self
    cases rest with
    | nil =>
      rw [List.flatten_cons, List.flatten_nil, List.append_nil, scanText_line _ hline]
      rfl
    | cons next rest =>
      rw [List.flatten_cons, runeBytes_append, scanText_closed _ (hline.closed hf.1), scanText_line _ hline,
        ih hf.tail fun x hx => hl x (List.mem_cons_of_mem _ hx)]
      rfl

theorem scanLines_unnamed {lines : List (List Rune)} (h : ∀ line ∈ lines, lineName line = none) (st : Scanned β) :
    scanLines σ st lines = extend σ st lines := by
  induction lines generalizing st with
  | nil => cases st <;> rfl
  | cons line rest ih =>
    have hline := h line List.mem_cons_self
    rw [scanLines, List.foldl_cons, ← scanLines, ih fun x hx => h x (List.mem_cons_of_mem _ hx)]
    cases st with
    | nil => simp [scanStep, hline, extend]
    | cons p st => rw [scanStep_unnamed hline p.1 p.2 st]; rfl

/-- A section that is written as it was read. -/
theorem scanText_section {s : ConfigSection} (h : IsSection s) (hf : Finished s.all) (st : Scanned β) :
    scanText σ st (runeBytes s.header ++ runeBytes s.lines.flatten) = (s.name, σ.section s) :: st := by
  have hl : ∀ line ∈ s.all, IsLine line := by
    intro line hline
    rcases List.mem_cons.mp hline with rfl | hline
    · exact h.header
    · exact (h.lines line hline).1
  have hflat : runeBytes s.header ++ runeBytes s.lines.flatten = runeBytes s.all.flatten := by
    rw [ConfigSection.all, List.flatten_cons, runeBytes_append]
  rw [hflat, scanText_lines hf hl, ConfigSection.all, scanLines, List.foldl_cons, scanStep_named h.name, ← scanLines,
    scanLines_unnamed fun line hline => (h.lines line hline).2]
  rfl

/-! ## Rewritten sections -/

def endsWithBreak (line : List Rune) : Bool := line.getLast?.any fun r => r.char = '\n'

theorem endsWithBreak_iff {line : List Rune} : endsWithBreak line = true ↔ Ended line := by
  unfold endsWithBreak Ended
  constructor
  · intro h
    cases hr : line.getLast? with
    | none => simp [hr] at h
    | some r =>
      obtain ⟨body, hbody⟩ := List.getLast?_eq_some_iff.mp hr
      exact ⟨body, r, hbody, by simpa [hr] using h⟩
  · rintro ⟨body, r, rfl, hr⟩
    simp [hr]

/-- Whether a line stays in an owned section. -/
def stays (line : List Rune) : Bool := !isDirective "server" line && !isDirective "include" line

/-- The last line, where it stays and no break ends it: what comes after it is written on to it. -/
def openLine (lines : List (List Rune)) : Option (List Rune) :=
  lines.getLast?.filter fun line => !endsWithBreak line && stays line

/-- The lines that `renderLines` writes. -/
def renderedLines (repository : Repository) (inserted : Bool) : List (List Rune) → List (List Rune)
  | [] => []
  | line :: rest =>
    if isDirective "server" line then
      (if inserted then [] else [runes (serverLine repository)]) ++ renderedLines repository true rest
    else if isDirective "include" line then renderedLines repository inserted rest
    else line :: renderedLines repository inserted rest

def addedLines (repository : Repository) (lines : List (List Rune)) : List (List Rune) :=
  (if lines.any (isDirective "siglevel") then [] else [runes sigLevelLine]) ++
    (if lines.any (isDirective "server") then [] else [runes (serverLine repository)])

/-- The lines of a rewritten section. -/
def rewrittenLines (repository : Repository) (lines : List (List Rune)) : List (List Rune) :=
  renderedLines repository false lines ++ addedLines repository lines

/-- Nothing is written on to a line that was there. -/
def Unjoined (lines : List (List Rune)) : Prop :=
  ∀ line, openLine lines = some line →
    line = [] ∨ lines.any (isDirective "siglevel") = true ∧ lines.any (isDirective "server") = true

theorem renderLines_eq (repository : Repository) (inserted : Bool) (lines : List (List Rune)) :
    renderLines repository inserted lines =
      (runeBytes (renderedLines repository inserted lines).flatten, inserted || lines.any (isDirective "server")) := by
  induction lines generalizing inserted with
  | nil => simp [renderLines, renderedLines]
  | cons line rest ih =>
    by_cases hserver : isDirective "server" line = true
    · rw [renderLines, renderedLines, if_pos hserver, if_pos hserver, ih]
      cases inserted <;> simp [hserver, runeBytes_runes]
    · by_cases hinclude : isDirective "include" line = true
      · rw [renderLines, renderedLines, if_neg hserver, if_neg hserver, if_pos hinclude, if_pos hinclude, ih]
        simp [hserver]
      · rw [renderLines, renderedLines, if_neg hserver, if_neg hserver, if_neg hinclude, if_neg hinclude, ih]
        simp [hserver]

theorem mem_renderedLines {repository : Repository} {inserted : Bool} {lines : List (List Rune)} {line : List Rune}
    (h : line ∈ renderedLines repository inserted lines) :
    line = runes (serverLine repository) ∨ line ∈ lines ∧ stays line = true := by
  induction lines generalizing inserted with
  | nil => simp [renderedLines] at h
  | cons first rest ih =>
    rw [renderedLines] at h
    split_ifs at h with hserver hinserted hinclude
    · rcases ih h with h | h
      · exact .inl h
      · exact .inr ⟨List.mem_cons_of_mem _ h.1, h.2⟩
    · rcases List.mem_append.mp h with h | h
      · exact .inl (List.mem_singleton.mp h)
      · rcases ih h with h | h
        · exact .inl h
        · exact .inr ⟨List.mem_cons_of_mem _ h.1, h.2⟩
    · rcases ih h with h | h
      · exact .inl h
      · exact .inr ⟨List.mem_cons_of_mem _ h.1, h.2⟩
    · rcases List.mem_cons.mp h with rfl | h
      · exact .inr ⟨List.mem_cons_self, by simp [stays, hserver, hinclude]⟩
      · rcases ih h with h | h
        · exact .inl h
        · exact .inr ⟨List.mem_cons_of_mem _ h.1, h.2⟩

theorem renderedLines_concat (repository : Repository) (inserted : Bool) (lines : List (List Rune)) {last : List Rune}
    (h : stays last = true) :
    renderedLines repository inserted (lines ++ [last]) = renderedLines repository inserted lines ++ [last] := by
  simp only [stays, Bool.and_eq_true, Bool.not_eq_true'] at h
  induction lines generalizing inserted with
  | nil => simp [renderedLines, h.1, h.2]
  | cons first rest ih =>
    rw [List.cons_append, renderedLines, renderedLines]
    split_ifs <;> simp [ih]

/-- A line that was written, with its break. -/
theorem isLine_written {bytes : Bytes} (h : (0x0A : UInt8) ∉ bytes) : IsLine (runes (bytes ++ [0x0A])) := by
  have hnl : runes [0x0A] = [⟨'\n', [0x0A]⟩] := runes_ascii (by decide) []
  have hbody : ∀ r ∈ runes bytes, r.char ≠ '\n' := by
    intro r hr hbreak
    have hbytes := newline_bytes hr hbreak
    exact h (mem_bytes hr (by rw [hbytes]; simp))
  refine ⟨by rw [runeBytes_runes], .inr ⟨runes bytes, ⟨'\n', [0x0A]⟩, ?_, rfl, hbody⟩⟩
  rw [runes_append_ascii (by decide), hnl]

theorem ended_written {bytes : Bytes} : Ended (runes (bytes ++ [0x0A])) := by
  have hnl : runes [0x0A] = [⟨'\n', [0x0A]⟩] := runes_ascii (by decide) []
  exact ⟨runes bytes, ⟨'\n', [0x0A]⟩, by rw [runes_append_ascii (by decide), hnl], rfl⟩

theorem sectionName_head {line : List Rune} {name : Bytes} (h : sectionName line = some name) (r : Rune) (rest : List Rune)
    (hline : line = r :: rest) (hr : isBlank r = false) : r.char = '[' := by
  obtain ⟨before, l, inner, r', after, heq, hbefore, hl, -, -, -⟩ := sectionName_some h
  cases before with
  | nil =>
    rw [hline] at heq
    obtain ⟨rfl, -⟩ := List.cons.inj heq
    exact hl
  | cons b before =>
    rw [hline] at heq
    obtain ⟨rfl, -⟩ := List.cons.inj heq
    rw [List.all_cons, hr] at hbefore
    cases hbefore

/-- A line that a character of no blank and no bracket begins names no section. -/
theorem lineName_none {r : Rune} {rest : List Rune} (hblank : isBlank r = false) (hbracket : r.char ≠ '[')
    (hbreak : r.char ≠ '\n') : lineName (r :: rest) = none := by
  cases h : lineName (r :: rest) with
  | none => rfl
  | some name =>
    have hsplit : ∃ rest', trimNewline (r :: rest) = r :: rest' := by
      unfold trimNewline
      cases rest with
      | nil =>
        refine ⟨[], ?_⟩
        simp [hbreak]
      | cons x rest =>
        cases hlast : (r :: x :: rest).getLast? with
        | none => simp at hlast
        | some y =>
          simp only
          split_ifs
          · exact ⟨(x :: rest).dropLast, rfl⟩
          · exact ⟨x :: rest, rfl⟩
    obtain ⟨rest', hrest⟩ := hsplit
    rw [lineName] at h
    exact absurd (sectionName_head h r rest' hrest hblank) hbracket

theorem runes_serverLine (repository : Repository) : ∃ rest, runes (serverLine repository) =
    runes (utf8 "Server =") ++ rest := by
  have hsplit : serverLine repository = encode ("Server =".toList ++ (" " ++ repository.packageBaseUrl ++ "\n").toList) := by
    rw [serverLine, utf8]
    simp [String.toList_append]
  rw [hsplit, runes_encode, List.map_append, utf8, runes_encode]
  exact ⟨_, rfl⟩

theorem serverLine_isLine {repository : Repository} (h : Signed repository) : IsLine (runes (serverLine repository)) ∧
    lineName (runes (serverLine repository)) = none ∧ Ended (runes (serverLine repository)) := by
  obtain ⟨bytes, heq, hn, -⟩ := serverLine_eq h
  obtain ⟨rest, hrest⟩ := runes_serverLine repository
  have hword : runes (utf8 "Server =") = ⟨'S', [0x53]⟩ :: (runes (utf8 "erver =")) := by decide
  refine ⟨heq ▸ isLine_written hn, ?_, heq ▸ ended_written⟩
  rw [hrest, hword, List.cons_append]
  exact lineName_none (by decide) (by decide) (by decide)

theorem sigLevelLine_isLine : IsLine (runes sigLevelLine) ∧ lineName (runes sigLevelLine) = none ∧
    Ended (runes sigLevelLine) := by
  obtain ⟨bytes, heq, hn, -⟩ := sigLevelLine_eq
  exact ⟨heq ▸ isLine_written hn, by decide, heq ▸ ended_written⟩

theorem openLine_some {lines : List (List Rune)} {line : List Rune} (h : openLine lines = some line) :
    lines = lines.dropLast ++ [line] ∧ ¬Ended line ∧ stays line = true := by
  obtain ⟨hlast, hstays⟩ := Option.filter_eq_some_iff.mp h
  obtain ⟨init, hinit⟩ := List.getLast?_eq_some_iff.mp hlast
  simp only [Bool.and_eq_true, Bool.not_eq_true'] at hstays
  refine ⟨by rw [hinit, List.dropLast_concat], fun hended => ?_, hstays.2⟩
  rw [endsWithBreak_iff.mpr hended] at hstays
  cases hstays.1

/-- Where no line is left open, each line that stays has its break. -/
theorem ended_of_stays {lines : List (List Rune)} (hf : Finished lines) (h : openLine lines = none) {line : List Rune}
    (hline : line ∈ lines) (hstays : stays line = true) : Ended line := by
  obtain ⟨init, last, rfl⟩ : ∃ init last, lines = init ++ [last] :=
    ⟨_, _, (List.dropLast_append_getLast (List.ne_nil_of_mem hline)).symm⟩
  rcases List.mem_append.mp hline with hline | hline
  · exact hf.left (by simp) line hline
  · obtain rfl := List.mem_singleton.mp hline
    by_contra hended
    have hbreak : endsWithBreak line = false := by
      rw [Bool.eq_false_iff]
      exact fun h => hended (endsWithBreak_iff.mp h)
    simp [openLine, hbreak, hstays] at h

section
variable {repository : Repository} {s : ConfigSection}

theorem mem_addedLines (h : Signed repository) {line : List Rune} (hline : line ∈ addedLines repository s.lines) :
    IsLine line ∧ lineName line = none ∧ Ended line := by
  unfold addedLines at hline
  rcases List.mem_append.mp hline with hline | hline
  · split_ifs at hline
    · cases hline
    · rw [List.mem_singleton.mp hline]
      exact sigLevelLine_isLine
  · split_ifs at hline
    · cases hline
    · rw [List.mem_singleton.mp hline]
      exact serverLine_isLine h

theorem mem_rewrittenLines (h : Signed repository) (hs : IsSection s) {line : List Rune}
    (hline : line ∈ rewrittenLines repository s.lines) : IsLine line ∧ lineName line = none := by
  rcases List.mem_append.mp hline with hline | hline
  · rcases mem_renderedLines hline with rfl | hline
    · exact ⟨(serverLine_isLine h).1, (serverLine_isLine h).2.1⟩
    · exact hs.lines line hline.1
  · exact ⟨(mem_addedLines h hline).1, (mem_addedLines h hline).2.1⟩

/-- The header of a rewritten section, with its break. -/
def endedHeader (s : ConfigSection) : List Rune :=
  if endsWithNewline (runeBytes s.header) = true then s.header else s.header ++ [⟨'\n', [0x0A]⟩]

theorem endedHeader_isLine (h : IsSection s) : IsLine (endedHeader s) ∧ lineName (endedHeader s) = some s.name ∧
    Ended (endedHeader s) := by
  have hlast (hne : endsWithNewline (runeBytes s.header) = false) : ∀ r ∈ s.header, r.char ≠ '\n' := by
    rcases h.header.shape with hu | ⟨body, r, heq, hr, -⟩
    · exact hu
    · have hclosed := h.header.closed ⟨body, r, heq, hr⟩
      exfalso
      rcases hclosed with hnil | ⟨a, ha⟩
      · have hmem : r ∈ runes (runeBytes s.header) := by rw [h.header.stable, heq]; simp
        rw [hnil] at hmem
        cases hmem
      · rw [endsWithNewline, ha] at hne
        simp at hne
  unfold endedHeader
  split_ifs with hnl
  · refine ⟨h.header, h.name, ?_⟩
    rcases h.header.shape with hu | ⟨body, r, heq, hr, -⟩
    · obtain ⟨a, ha⟩ : ∃ a, runeBytes s.header = a ++ [0x0A] := by
        simp only [endsWithNewline, decide_eq_true_eq] at hnl
        exact List.getLast?_eq_some_iff.mp hnl
      have hstable := h.header.stable
      rw [ha, runes_append_ascii (by decide), runes_ascii (by decide), runes_nil] at hstable
      exact ⟨runes a, ⟨'\n', [0x0A]⟩, hstable.symm, rfl⟩
    · exact ⟨body, r, heq, hr⟩
  · have hu := hlast (by simpa using hnl)
    have hnew : runes [0x0A] = [⟨'\n', [0x0A]⟩] := runes_ascii (by decide) []
    refine ⟨⟨?_, .inr ⟨s.header, _, rfl, rfl, hu⟩⟩, by rw [lineName_broken hu, h.name], s.header, _, rfl, rfl⟩
    rw [runeBytes_append]
    show runes (runeBytes s.header ++ [0x0A]) = _
    rw [runes_append_ascii (by decide), h.header.stable, hnew]

theorem renderOwnedSection_eq (s : ConfigSection) (repository : Repository) : renderOwnedSection s repository =
    runeBytes (endedHeader s :: rewrittenLines repository s.lines).flatten := by
  have hheader : runeBytes (endedHeader s) =
      runeBytes s.header ++ if endsWithNewline (runeBytes s.header) = true then [] else [0x0A] := by
    unfold endedHeader
    split_ifs
    · rw [List.append_nil]
    · rw [runeBytes_append]
      rfl
  rw [List.flatten_cons, runeBytes_append, hheader, rewrittenLines, List.flatten_append, runeBytes_append]
  unfold renderOwnedSection
  simp only [renderLines_eq, Bool.false_or, List.append_assoc, List.append_cancel_left_eq]
  unfold addedLines
  split_ifs <;> simp [runeBytes_runes]

/-- A rewritten section is scanned as its lines. -/
theorem scanText_rewritten (h : Signed repository) (hs : IsSection s) (hf : Finished s.all) (hu : Unjoined s.lines)
    (st : Scanned β) : scanText σ st (renderOwnedSection s repository) =
      (s.name, (rewrittenLines repository s.lines).foldl σ.next (σ.start (endedHeader s))) :: st := by
  obtain ⟨hheader, hname, hended⟩ := endedHeader_isLine hs
  -- what is left of the section where its lines are those of a text
  have hlines (lines : List (List Rune)) (hfinished : Finished lines)
      (hl : ∀ line ∈ lines, IsLine line ∧ lineName line = none) :
      scanText σ st (runeBytes (endedHeader s :: lines).flatten) =
        (s.name, lines.foldl σ.next (σ.start (endedHeader s))) :: st := by
    have hall : Finished (endedHeader s :: lines) := by
      cases lines with
      | nil => trivial
      | cons next rest => exact ⟨hended, hfinished⟩
    have hallLines : ∀ line ∈ endedHeader s :: lines, IsLine line := by
      intro line hline
      rcases List.mem_cons.mp hline with rfl | hline
      · exact hheader
      · exact (hl line hline).1
    rw [scanText_lines hall hallLines, scanLines, List.foldl_cons, scanStep_named hname, ← scanLines,
      scanLines_unnamed fun line hline => (hl line hline).2]
    rfl
  have hmem : ∀ line ∈ rewrittenLines repository s.lines, IsLine line ∧ lineName line = none :=
    fun line hline => mem_rewrittenLines h hs hline
  rw [renderOwnedSection_eq]
  cases hopen : openLine s.lines with
  | none =>
    refine hlines _ (finished_of_ended fun line hline => ?_) hmem
    rcases List.mem_append.mp hline with hline | hline
    · rcases mem_renderedLines hline with rfl | hline
      · exact (serverLine_isLine h).2.2
      · exact ended_of_stays hf.tail hopen hline.1 hline.2
    · exact (mem_addedLines h hline).2.2
  | some line =>
    obtain ⟨hsplit, -, hstays⟩ := openLine_some hopen
    have hrendered : renderedLines repository false s.lines =
        renderedLines repository false s.lines.dropLast ++ [line] := by
      conv_lhs => rw [hsplit]
      exact renderedLines_concat _ _ _ hstays
    have hbefore : ∀ x ∈ renderedLines repository false s.lines.dropLast, Ended x := by
      intro x hx
      have hfinished := hf.tail
      rw [hsplit] at hfinished
      rcases mem_renderedLines hx with rfl | hx
      · exact (serverLine_isLine h).2.2
      · exact hfinished.left (by simp) x hx.1
    rcases hu line hopen with rfl | ⟨hsig, hserver⟩
    · -- the open line is the empty one after the last break
      have hflat : (endedHeader s :: rewrittenLines repository s.lines).flatten =
          (endedHeader s :: (renderedLines repository false s.lines.dropLast ++ addedLines repository s.lines)).flatten := by
        rw [rewrittenLines, hrendered]
        simp
      rw [hflat, hlines _ (finished_of_ended fun x hx => ?_) fun x hx => ?_]
      · rw [rewrittenLines, hrendered]
        simp only [List.foldl_append, List.foldl_cons, List.foldl_nil, σ.next_nil]
      · rcases List.mem_append.mp hx with hx | hx
        · exact hbefore x hx
        · exact (mem_addedLines h hx).2.2
      · refine hmem x ?_
        rw [rewrittenLines, hrendered]
        rcases List.mem_append.mp hx with hx | hx <;> simp [hx]
    · refine hlines _ ?_ hmem
      have hadded : addedLines repository s.lines = [] := by simp [addedLines, hsig, hserver]
      rw [rewrittenLines, hadded, List.append_nil, hrendered]
      generalize renderedLines repository false s.lines.dropLast = before at hbefore
      induction before with
      | nil => trivial
      | cons first rest ih =>
        have hfirst := hbefore first List.mem_cons_self
        have hrest := ih fun x hx => hbefore x (List.mem_cons_of_mem _ hx)
        cases rest with
        | nil => exact ⟨hfirst, hrest⟩
        | cons next rest => exact ⟨hfirst, hrest⟩

end

/-! ## Directives -/

theorem trimSpace_trailing (line : List Rune) {blanks : List Rune} (h : blanks.all isTrimmed = true) :
    trimSpace (line ++ blanks) = trimSpace line := by
  unfold trimSpace
  have hblanks : ∀ r ∈ blanks, isTrimmed r = true := List.all_eq_true.mp h
  by_cases hall : ∀ r ∈ line, isTrimmed r = true
  · have hnil : line.dropWhile isTrimmed = [] := List.dropWhile_eq_nil_iff.mpr hall
    have hnil' : (line ++ blanks).dropWhile isTrimmed = [] := by
      refine List.dropWhile_eq_nil_iff.mpr fun r hr => ?_
      rcases List.mem_append.mp hr with hr | hr
      · exact hall r hr
      · exact hblanks r hr
    rw [hnil, hnil']
  · have hsplit : (line ++ blanks).dropWhile isTrimmed = line.dropWhile isTrimmed ++ blanks := by
      have hne : line.dropWhile isTrimmed ≠ [] := fun hnil => hall (List.dropWhile_eq_nil_iff.mp hnil)
      rw [List.dropWhile_append]
      simp [hne]
    rw [hsplit, List.reverse_append, List.dropWhile_append_of_pos (by simpa using hblanks)]

theorem trimSpace_trimNewline (line : List Rune) : trimSpace (trimNewline line) = trimSpace line := by
  unfold trimNewline
  cases hlast : line.getLast? with
  | none => rfl
  | some x =>
    obtain ⟨body, rfl⟩ := List.getLast?_eq_some_iff.mp hlast
    simp only
    split_ifs with hx
    · rw [List.dropLast_concat]
      exact (trimSpace_trailing body (by simp [isTrimmed, hx])).symm
    · rfl

theorem isDirective_trimNewline (name : String) (line : List Rune) :
    isDirective name (trimNewline line) = isDirective name line := by
  rw [isDirective, isDirective, trimSpace_trimNewline]

theorem stays_trimNewline (line : List Rune) : stays (trimNewline line) = stays line := by
  rw [stays, stays, isDirective_trimNewline, isDirective_trimNewline]

/-- A line starts as one directive. -/
theorem directive_unique {name other : String} {line : List Rune} (h : isDirective name line = true)
    (h' : isDirective other line = true) : name.toList <+: other.toList ∨ other.toList <+: name.toList := by
  simp only [isDirective, Bool.and_eq_true, List.isPrefixOf_iff_prefix] at h h'
  exact List.prefix_or_prefix_of_prefix h.1 h'.1

theorem dropWhile_end {p : Rune → Bool} (xs : List Rune) {r : Rune} (h : p r = false) (ys : List Rune) :
    ∃ zs, ((xs ++ r :: ys).reverse.dropWhile p).reverse = xs ++ r :: zs := by
  rw [List.reverse_append, List.reverse_cons, List.append_assoc, List.dropWhile_append]
  split
  · refine ⟨[], ?_⟩
    rw [List.singleton_append, List.dropWhile_cons_of_neg (by simp [h])]
    simp
  · refine ⟨(ys.reverse.dropWhile p).reverse, ?_⟩
    simp

/-- What begins and ends with characters that are no blanks stays where a line begins with it. -/
theorem trimSpace_start {first last : Rune} (hfirst : isTrimmed first = false) (hlast : isTrimmed last = false)
    (middle rest : List Rune) : first :: middle ++ [last] <+: trimSpace (first :: middle ++ last :: rest) := by
  have hstart : (first :: middle ++ last :: rest).dropWhile isTrimmed = first :: middle ++ last :: rest := by
    rw [List.cons_append, List.dropWhile_cons_of_neg (by simp [hfirst])]
  obtain ⟨zs, hzs⟩ := dropWhile_end (first :: middle) hlast rest
  rw [trimSpace, hstart, hzs]
  exact ⟨zs, by simp⟩

theorem isDirective_server (repository : Repository) : isDirective "server" (runes (serverLine repository)) = true := by
  obtain ⟨rest, hrest⟩ := runes_serverLine repository
  have hword : runes (utf8 "Server =") = ⟨'S', [0x53]⟩ :: (runes (utf8 "erver ")) ++ [⟨'=', [0x3D]⟩] := by decide
  have hstart : runes (utf8 "Server =") <+: trimSpace (runes (serverLine repository)) := by
    rw [hrest, hword, List.append_assoc, List.singleton_append]
    exact trimSpace_start (by decide) (by decide) _ rest
  have hlower : "server".toList <+: (runes (utf8 "Server =")).map fun r => lowerChar r.char := by decide
  have hequals : '=' ∈ (runes (utf8 "Server =")).map Rune.char := by decide
  simp only [isDirective, Bool.and_eq_true, List.contains_eq_mem, decide_eq_true_eq, List.isPrefixOf_iff_prefix]
  exact ⟨hlower.trans (hstart.map fun r => lowerChar r.char), (hstart.map Rune.char).subset hequals⟩

theorem serverLine_other (repository : Repository) {name : String} (h : ¬(name.toList <+: "server".toList))
    (h' : ¬("server".toList <+: name.toList)) : isDirective name (runes (serverLine repository)) = false := by
  by_contra hdirective
  rcases directive_unique (by simpa using hdirective) (isDirective_server repository) with hp | hp
  · exact h hp
  · exact h' hp

/-! ## The rewritten text -/

section
variable {repositories : List Repository}

/-- What a scan keeps of a section after it is rewritten. -/
def Scan.rewritten (σ : Scan β) (repositories : List Repository) (s : ConfigSection) : β :=
  match findOwned repositories s.name with
  | some repository => (rewrittenLines repository s.lines).foldl σ.next (σ.start (endedHeader s))
  | none => σ.section s

def headerLine (repository : Repository) : List Rune := runes (utf8 ("[" ++ repository.name ++ "]"))

/-- What it keeps of a section that was missing. -/
def Scan.added (σ : Scan β) (repository : Repository) : β :=
  [runes sigLevelLine, runes (serverLine repository)].foldl σ.next (σ.start (headerLine repository ++ [⟨'\n', [0x0A]⟩]))

theorem scanText_renderSection (hs : ∀ repository ∈ repositories, Signed repository) {s : ConfigSection} (h : IsSection s)
    (hf : Finished s.all) (hu : s.name ∈ signedNames repositories → Unjoined s.lines) (st : Scanned β) :
    scanText σ st (renderSection repositories s) = (s.name, σ.rewritten repositories s) :: st := by
  unfold renderSection Scan.rewritten
  cases hfind : findOwned repositories s.name with
  | some repository =>
    obtain ⟨hr, hname⟩ := findOwned_some hfind
    exact scanText_rewritten (hs repository hr) h hf (hu (List.mem_map.mpr ⟨repository, hr, hname⟩)) st
  | none => exact scanText_section h hf st

theorem scanText_renderSections (hs : ∀ repository ∈ repositories, Signed repository) {sections : List ConfigSection}
    (h : ∀ s ∈ sections, IsSection s) (hf : Finished (sections.flatMap ConfigSection.all))
    (hu : ∀ s ∈ sections, s.name ∈ signedNames repositories → Unjoined s.lines) (st : Scanned β) :
    scanText σ st (sections.flatMap (renderSection repositories)) =
      (sections.map fun s => (s.name, σ.rewritten repositories s)).reverse ++ st := by
  induction sections generalizing st with
  | nil => exact scanText_nil st
  | cons s rest ih =>
    rw [List.flatMap_cons] at hf ⊢
    have hsection := h s List.mem_cons_self
    have hscan := scanText_renderSection (σ := σ) hs hsection hf.prefix (hu s List.mem_cons_self) st
    have hrest := ih (fun x hx => h x (List.mem_cons_of_mem _ hx)) hf.right fun x hx => hu x (List.mem_cons_of_mem _ hx)
    have hsplit : scanText σ st (renderSection repositories s ++ rest.flatMap (renderSection repositories)) =
        scanText σ (scanText σ st (renderSection repositories s)) (rest.flatMap (renderSection repositories)) := by
      cases rest with
      | nil => rw [List.flatMap_nil, List.append_nil, scanText_nil]
      | cons next rest =>
        obtain ⟨-, hclosed⟩ := renderSection_order hs hsection hf.prefix
        exact scanText_closed _ (hclosed (hf.left (by simp [ConfigSection.all]))) _
    rw [hsplit, hscan, hrest]
    simp

theorem scanText_missing {repository : Repository} (h : Signed repository) (st : Scanned β) :
    scanText σ st (renderMissingSection repository) = (utf8 repository.name, σ.added repository) :: st := by
  obtain ⟨hbreak, hname⟩ := header_name h
  have hunbroken : ∀ r ∈ headerLine repository, r.char ≠ '\n' := by
    intro r hr hc
    exact hbreak (mem_bytes hr (by rw [newline_bytes hr hc]; simp))
  have hnew : runes [0x0A] = [⟨'\n', [0x0A]⟩] := runes_ascii (by decide) []
  have hheader : runes (utf8 ("[" ++ repository.name ++ "]") ++ [0x0A]) = headerLine repository ++ [⟨'\n', [0x0A]⟩] := by
    rw [runes_append_ascii (by decide), hnew, headerLine]
  have hline := isLine_written hbreak
  rw [hheader] at hline
  have hlineName : lineName (headerLine repository ++ [⟨'\n', [0x0A]⟩]) = some (utf8 repository.name) := by
    rw [lineName_broken hunbroken, lineName, trimNewline_unbroken hunbroken, headerLine, hname]
  have htext : renderMissingSection repository = runeBytes
      [headerLine repository ++ [⟨'\n', [0x0A]⟩], runes sigLevelLine, runes (serverLine repository)].flatten := by
    rw [renderMissingSection_eq, ← hheader]
    simp [runeBytes_append, runeBytes_runes]
  obtain ⟨hsig, hsigName, hsigEnded⟩ := sigLevelLine_isLine
  obtain ⟨hserver, hserverName, -⟩ := serverLine_isLine h
  have hfinished : Finished [headerLine repository ++ [⟨'\n', [0x0A]⟩], runes sigLevelLine, runes (serverLine repository)] :=
    ⟨⟨_, _, rfl, rfl⟩, hsigEnded, trivial⟩
  have hunnamed : ∀ line ∈ [runes sigLevelLine, runes (serverLine repository)], lineName line = none := by
    simp [hsigName, hserverName]
  rw [htext, scanText_lines hfinished (by simp [hline, hsig, hserver]), scanLines, List.foldl_cons, scanStep_named hlineName,
    ← scanLines, scanLines_unnamed hunnamed]
  rfl

/-- The text that `rewriteConfig` writes before the missing sections. -/
def rewrittenBody (repositories : List Repository) (input : Bytes) : Bytes :=
  runeBytes (parseSections input).2 ++ (parseSections input).1.flatMap (renderSection repositories)

def missingRepositories (repositories : List Repository) (input : Bytes) : List Repository :=
  repositories.filter fun repository => !(ownedOrder repositories input).contains (utf8 repository.name)

theorem rewriteConfig_text {input output : Bytes} (h : rewriteConfig input repositories = .ok output) :
    output = (missingRepositories repositories input).foldl appendMissing (rewrittenBody repositories input) := by
  unfold rewriteConfig at h
  split_ifs at h
  simp only at h
  split_ifs at h
  cases hdup : duplicateName [] repositories with
  | some name => simp [hdup] at h
  | none =>
    simp only [hdup] at h
    cases hcheck : checkSections repositories [] (parseSections input).1 with
    | error e => simp [hcheck] at h
    | ok present =>
      simp only [hcheck] at h
      split_ifs at h
      have hpresent : ownedOrder repositories input = present := (checkSections_present hcheck).symm
      have hmissing : missingRepositories repositories input =
          repositories.filter fun repository => utf8 repository.name ∉ present := by
        rw [missingRepositories, hpresent]
        exact List.filter_congr fun repository _ => by simp
      rw [hmissing]
      exact (Except.ok.inj h).symm

/-- Nothing is kept of what comes before the sections. -/
theorem scanText_leading (input : Bytes) : scanText σ [] (rewrittenBody repositories input) =
    scanText σ [] ((parseSections input).1.flatMap (renderSection repositories)) := by
  obtain ⟨hsplit, -, hleading⟩ := collectSections_spec _ (splitLines_isLine input)
  have hfinished := splitLines_finished (runes input)
  rw [hsplit] at hfinished
  have hparse : parseSections input = ((collectSections (splitLines (runes input))).1,
      (collectSections (splitLines (runes input))).2.flatten) := rfl
  have hl : ∀ line ∈ (collectSections (splitLines (runes input))).2, IsLine line := fun line hline => (hleading line hline).1
  have hlead : scanText σ [] (runeBytes (parseSections input).2) = [] := by
    rw [hparse, scanText_lines hfinished.prefix hl, scanLines_unnamed fun line hline => (hleading line hline).2]
    rfl
  rw [rewrittenBody]
  rw [hparse] at hlead ⊢
  cases hcollected : (collectSections (splitLines (runes input))).1 with
  | nil => rw [List.flatMap_nil, List.append_nil, hlead, scanText_nil]
  | cons first others =>
    have hended := hfinished.left (by simp [hcollected, ConfigSection.all])
    rw [scanText_closed _ (closed_lines hl hended), hlead]

/-- The sections of a text that was read. -/
theorem parseSections_spec (input : Bytes) : (∀ s ∈ (parseSections input).1, IsSection s) ∧
    Finished ((parseSections input).1.flatMap ConfigSection.all) := by
  obtain ⟨hsplit, hsections, -⟩ := collectSections_spec _ (splitLines_isLine input)
  have hfinished := splitLines_finished (runes input)
  rw [hsplit] at hfinished
  exact ⟨hsections, hfinished.right⟩

theorem scanText_body (hs : ∀ repository ∈ repositories, Signed repository) (input : Bytes)
    (hu : ∀ s ∈ (parseSections input).1, s.name ∈ signedNames repositories → Unjoined s.lines) :
    scanText σ [] (rewrittenBody repositories input) =
      ((parseSections input).1.map fun s => (s.name, σ.rewritten repositories s)).reverse := by
  obtain ⟨hsections, hfinished⟩ := parseSections_spec input
  rw [scanText_leading, scanText_renderSections hs hsections hfinished hu, List.append_nil]

theorem scanText_appendMissing (hσ : σ.Unbroken) {repository : Repository} (h : Signed repository) (output : Bytes)
    (st : Scanned β) :
    scanText σ st (appendMissing output repository) =
      (utf8 repository.name, σ.added repository) :: scanText σ st output := by
  have hsection := scanText_missing (σ := σ) h
  unfold appendMissing
  by_cases hempty : output = []
  · subst hempty
    simpa [scanText_nil] using hsection st
  · cases hnl : endsWithNewline output with
    | true =>
      simp only [hempty, ne_eq, not_false_eq_true, Bool.true_eq_false, and_false, if_false, if_true]
      rw [List.append_assoc, List.singleton_append, scanText_break hσ, hsection]
    | false =>
      simp only [hempty, ne_eq, not_false_eq_true, and_self, if_true, List.append_eq_nil_iff, List.cons_ne_self]
      rw [List.append_assoc, List.singleton_append, scanText_break hσ, scanText_break hσ, scanText_nil, hsection]

theorem scanText_missings (hσ : σ.Unbroken) {missing : List Repository} (hm : ∀ repository ∈ missing, Signed repository)
    (output : Bytes) (st : Scanned β) :
    scanText σ st (missing.foldl appendMissing output) =
      (missing.map fun repository => (utf8 repository.name, σ.added repository)).reverse ++ scanText σ st output := by
  induction missing generalizing output with
  | nil => rfl
  | cons repository rest ih =>
    rw [List.foldl_cons, ih (fun x hx => hm x (List.mem_cons_of_mem _ hx)),
      scanText_appendMissing hσ (hm repository List.mem_cons_self)]
    simp

/-- The sections of a rewritten text, by what a scan keeps of them: those that were there, then the
missing ones. -/
theorem rewriteConfig_sections (hσ : σ.Unbroken) (hs : ∀ repository ∈ repositories, Signed repository) {input output : Bytes}
    (h : rewriteConfig input repositories = .ok output)
    (hu : ∀ s ∈ (parseSections input).1, s.name ∈ signedNames repositories → Unjoined s.lines) :
    ((parseSections output).1.map fun s => (s.name, σ.section s)) =
      ((parseSections input).1.map fun s => (s.name, σ.rewritten repositories s)) ++
        (missingRepositories repositories input).map fun repository => (utf8 repository.name, σ.added repository) := by
  have hm : ∀ repository ∈ missingRepositories repositories input, Signed repository :=
    fun x hx => hs x (List.mem_filter.mp hx).1
  have hscan := scanText_sections (σ := σ) output
  rw [rewriteConfig_text h, scanText_missings hσ hm, scanText_body hs input hu, ← List.reverse_append] at hscan
  rw [rewriteConfig_text h]
  exact (List.reverse_injective hscan).symm

end

end Omapkg.Client
