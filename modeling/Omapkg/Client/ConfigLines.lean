import Omapkg.Client.ConfigScan
/-!
# The rewritten lines

Which lines a rewritten configuration has: one server for each repository and no include,
the other lines of an owned section, and every other section as it was.
-/

namespace Omapkg.Client

open Utf

/-! ## The lines of a section -/

/-- The lines that are not blank, without their breaks. -/
def lineTexts (lines : List (List Rune)) : List (List Rune) :=
  (lines.filter fun line => trimSpace line ≠ []).map trimNewline

def ConfigSection.texts (s : ConfigSection) : List (List Rune) := lineTexts s.lines

def textScan : Scan (List (List Rune)) where
  start _ := []
  next b line := if trimSpace line = [] then b else b ++ [trimNewline line]
  next_nil _ := rfl

theorem textScan_unbroken : textScan.Unbroken where
  start _ _ := rfl
  next b line h := by
    have htrim : trimSpace (line ++ [⟨'\n', [0x0A]⟩]) = trimSpace line := trimSpace_trailing line (by decide)
    simp only [textScan]
    rw [htrim, trimNewline_break line rfl, trimNewline_unbroken h]

theorem textScan_lines (b : List (List Rune)) (lines : List (List Rune)) :
    lines.foldl textScan.next b = b ++ lineTexts lines := by
  induction lines generalizing b with
  | nil => simp [lineTexts]
  | cons line rest ih =>
    rw [List.foldl_cons, ih]
    by_cases h : trimSpace line = [] <;> simp [textScan, lineTexts, h]

theorem textScan_section (s : ConfigSection) : textScan.section s = s.texts := textScan_lines [] s.lines

theorem lineTexts_append (xs ys : List (List Rune)) : lineTexts (xs ++ ys) = lineTexts xs ++ lineTexts ys := by
  simp [lineTexts]

theorem filter_lineTexts {p : List Rune → Bool} (hp : ∀ line, p (trimNewline line) = p line) (lines : List (List Rune)) :
    (lineTexts lines).filter p = lineTexts (lines.filter p) := by
  have hcomp : p ∘ trimNewline = p := funext hp
  rw [lineTexts, lineTexts, List.filter_map, hcomp, List.filter_filter, List.filter_filter]
  congr 1
  exact List.filter_congr fun line _ => Bool.and_comm _ _

section
variable (repository : Repository) (lines : List (List Rune))

theorem rendered_servers (inserted : Bool) : (renderedLines repository inserted lines).filter (isDirective "server") =
    if inserted = false ∧ lines.any (isDirective "server") = true then [runes (serverLine repository)] else [] := by
  induction lines generalizing inserted with
  | nil => simp [renderedLines]
  | cons line rest ih =>
    have hserver := isDirective_server repository
    rw [renderedLines]
    by_cases h : isDirective "server" line = true
    · rw [if_pos h, List.filter_append, ih]
      cases inserted <;> simp [h, hserver]
    · by_cases hinclude : isDirective "include" line = true
      · rw [if_neg h, if_pos hinclude, ih]
        simp [h]
      · rw [if_neg h, if_neg hinclude, List.filter_cons_of_neg h, ih]
        simp [h]

theorem rendered_includes (inserted : Bool) :
    (renderedLines repository inserted lines).filter (isDirective "include") = [] := by
  rw [List.filter_eq_nil_iff]
  intro line hline
  rcases mem_renderedLines hline with rfl | ⟨-, hstays⟩
  · simp [serverLine_other repository (by decide : ¬("include".toList <+: "server".toList)) (by decide)]
  · simp only [stays, Bool.and_eq_true, Bool.not_eq_true'] at hstays
    simp [hstays.2]

theorem rendered_stays (inserted : Bool) : (renderedLines repository inserted lines).filter stays = lines.filter stays := by
  induction lines generalizing inserted with
  | nil => rfl
  | cons line rest ih =>
    have hserver : stays (runes (serverLine repository)) = false := by simp [stays, isDirective_server]
    rw [renderedLines]
    by_cases h : isDirective "server" line = true
    · have hline : stays line = false := by simp [stays, h]
      rw [if_pos h, List.filter_append, ih, List.filter_cons_of_neg (by simp [hline])]
      cases inserted <;> simp [hserver]
    · by_cases hinclude : isDirective "include" line = true
      · rw [if_neg h, if_pos hinclude, ih]
        simp [stays, hinclude]
      · have hstays : stays line = true := by simp [stays, h, hinclude]
        rw [if_neg h, if_neg hinclude, List.filter_cons_of_pos hstays, List.filter_cons_of_pos hstays, ih]

theorem rewritten_servers :
    (rewrittenLines repository lines).filter (isDirective "server") = [runes (serverLine repository)] := by
  have hserver := isDirective_server repository
  have hlevel : isDirective "server" (runes sigLevelLine) = false := by decide
  rw [rewrittenLines, List.filter_append, rendered_servers, addedLines, List.filter_append]
  by_cases h : lines.any (isDirective "server") = true <;> by_cases hsig : lines.any (isDirective "siglevel") = true <;>
    simp [h, hsig, hserver, hlevel]

theorem rewritten_includes : (rewrittenLines repository lines).filter (isDirective "include") = [] := by
  have hserver : isDirective "include" (runes (serverLine repository)) = false :=
    serverLine_other repository (by decide) (by decide)
  have hlevel : isDirective "include" (runes sigLevelLine) = false := by decide
  rw [rewrittenLines, List.filter_append, rendered_includes, addedLines, List.filter_append]
  by_cases h : lines.any (isDirective "server") = true <;> by_cases hsig : lines.any (isDirective "siglevel") = true <;>
    simp [h, hsig, hserver, hlevel]

theorem rewritten_stays : (rewrittenLines repository lines).filter stays =
    lines.filter stays ++ if lines.any (isDirective "siglevel") = true then [] else [runes sigLevelLine] := by
  have hserver : stays (runes (serverLine repository)) = false := by simp [stays, isDirective_server]
  have hlevel : stays (runes sigLevelLine) = true := by decide
  rw [rewrittenLines, List.filter_append, rendered_stays, addedLines, List.filter_append]
  by_cases h : lines.any (isDirective "server") = true <;> by_cases hsig : lines.any (isDirective "siglevel") = true <;>
    simp [h, hsig, hserver, hlevel]

end

def serverText (repository : Repository) : List Rune := runes (utf8 ("Server = " ++ repository.packageBaseUrl))

def sigLevelText : List Rune := runes (utf8 "SigLevel = Required TrustedOnly")

theorem lineTexts_server (repository : Repository) : lineTexts [runes (serverLine repository)] = [serverText repository] := by
  have hne : trimSpace (runes (serverLine repository)) ≠ [] := by
    intro hnil
    have h := isDirective_server repository
    rw [isDirective, hnil] at h
    exact absurd h (by decide)
  have hsplit : serverLine repository = utf8 ("Server = " ++ repository.packageBaseUrl) ++ [0x0A] := by
    rw [serverLine, utf8_append, utf8_newline]
  have hnl : runes [0x0A] = [⟨'\n', [0x0A]⟩] := runes_ascii (by decide) []
  have htext : trimNewline (runes (serverLine repository)) = serverText repository := by
    rw [hsplit, runes_append_ascii (by decide), hnl, trimNewline_break _ rfl, serverText]
  simp [lineTexts, hne, htext]

theorem lineTexts_sigLevel : lineTexts [runes sigLevelLine] = [sigLevelText] := by decide

/-- One server, the signed one, and no include. -/
structure Served (repository : Repository) (texts : List (List Rune)) : Prop where
  server : texts.filter (isDirective "server") = [serverText repository]
  includes : texts.filter (isDirective "include") = []

theorem served_rewritten (repository : Repository) (lines : List (List Rune)) :
    Served repository (lineTexts (rewrittenLines repository lines)) := by
  constructor
  · rw [filter_lineTexts (isDirective_trimNewline _), rewritten_servers, lineTexts_server]
  · rw [filter_lineTexts (isDirective_trimNewline _), rewritten_includes]
    rfl

theorem stays_rewritten (repository : Repository) (lines : List (List Rune)) :
    (lineTexts (rewrittenLines repository lines)).filter stays =
      (lineTexts lines).filter stays ++ if lines.any (isDirective "siglevel") = true then [] else [sigLevelText] := by
  rw [filter_lineTexts stays_trimNewline, rewritten_stays, lineTexts_append, ← filter_lineTexts stays_trimNewline]
  split_ifs
  · rfl
  · rw [lineTexts_sigLevel]

theorem served_added (repository : Repository) : Served repository (textScan.added repository) := by
  have htexts : textScan.added repository = lineTexts (rewrittenLines repository []) := by
    rw [Scan.added, textScan_lines]
    rfl
  rw [htexts]
  exact served_rewritten repository []

/-! ## Sections that are not owned -/

def ConfigSection.bytes (s : ConfigSection) : Bytes := runeBytes s.header ++ runeBytes s.lines.flatten

def byteScan : Scan Bytes where
  start := runeBytes
  next b line := b ++ runeBytes line
  next_nil b := by rw [runeBytes_nil, List.append_nil]

theorem byteScan_section (s : ConfigSection) : byteScan.section s = s.bytes := by
  have hlines (b : Bytes) (lines : List (List Rune)) : lines.foldl byteScan.next b = b ++ runeBytes lines.flatten := by
    induction lines generalizing b with
    | nil => simp
    | cons line rest ih =>
      rw [List.foldl_cons, ih, List.flatten_cons, runeBytes_append, ← List.append_assoc]
      rfl
  exact hlines _ _

/-- The last section, with line breaks after it; the sections stand from the last to the first. -/
def broken (breaks : Bytes) (st : Scanned Bytes) : Scanned Bytes := st.modifyHead fun p => (p.1, p.2 ++ breaks)

theorem byteScan_break (st : Scanned Bytes) (a : Bytes) :
    scanText byteScan st (a ++ [0x0A]) = broken [0x0A] (scanText byteScan st a) := by
  obtain ⟨ls, last, hlast, ha, hb⟩ := splitLines_break a []
  have hempty : splitLines (runes []) = [[]] := rfl
  have hstep (st : Scanned Bytes) : scanStep byteScan st (last ++ [⟨'\n', [0x0A]⟩]) = broken [0x0A] (scanStep byteScan st last) := by
    unfold scanStep
    rw [lineName_broken hlast]
    cases lineName last with
    | some name => simp [broken, byteScan, runeBytes_append, runeBytes_cons]
    | none => cases st <;> simp [broken, byteScan, runeBytes_append, runeBytes_cons]
  rw [scanText, scanText, ha, hb, hempty]
  simp only [scanLines, List.foldl_append, List.foldl_cons, List.foldl_nil, scanStep_nil, hstep]

theorem broken_broken (a b : Bytes) (st : Scanned Bytes) : broken b (broken a st) = broken (a ++ b) st := by
  cases st <;> simp [broken]

theorem broken_nil (st : Scanned Bytes) : broken [] st = st := by
  cases st <;> simp [broken]

/-- The line breaks that are put before a section that is appended. -/
def breaksBefore (output : Bytes) : Bytes :=
  if output = [] then [] else if endsWithNewline output = true then [0x0A] else [0x0A, 0x0A]

theorem byteScan_appendMissing {repository : Repository} (h : Signed repository) (output : Bytes) :
    scanText byteScan [] (appendMissing output repository) =
      (utf8 repository.name, byteScan.added repository) :: broken (breaksBefore output) (scanText byteScan [] output) := by
  have hsection := scanText_missing (σ := byteScan) h
  unfold appendMissing breaksBefore
  by_cases hempty : output = []
  · subst hempty
    simpa [scanText_nil, broken] using hsection []
  · cases hnl : endsWithNewline output with
    | true =>
      simp only [hempty, ne_eq, not_false_eq_true, Bool.true_eq_false, and_false, if_false, if_true]
      rw [scanText_closed _ (.inr ⟨output, rfl⟩), byteScan_break, hsection]
    | false =>
      simp only [hempty, ne_eq, not_false_eq_true, and_self, if_true, List.append_eq_nil_iff, List.cons_ne_self, if_false,
        Bool.false_eq_true]
      rw [scanText_closed _ (.inr ⟨output ++ [0x0A], rfl⟩), byteScan_break, byteScan_break, broken_broken, hsection]
      rfl

section
variable {repositories : List Repository}

def foreign (repositories : List Repository) (st : Scanned Bytes) : Scanned Bytes :=
  st.filter fun p => !(signedNames repositories).contains p.1

theorem foreign_missings (hs : ∀ repository ∈ repositories, Signed repository) {missing : List Repository}
    (hm : ∀ repository ∈ missing, repository ∈ repositories) (output : Bytes) :
    foreign repositories (scanText byteScan [] (missing.foldl appendMissing output)) =
      foreign repositories (broken (if missing = [] then [] else breaksBefore output) (scanText byteScan [] output)) := by
  induction missing generalizing output with
  | nil => simp [broken_nil]
  | cons repository rest ih =>
    have hr := hm repository List.mem_cons_self
    have hn : utf8 repository.name ∈ signedNames repositories := List.mem_map.mpr ⟨repository, hr, rfl⟩
    rw [List.foldl_cons, ih (fun x hx => hm x (List.mem_cons_of_mem _ hx)), byteScan_appendMissing (hs repository hr),
      if_neg (List.cons_ne_nil _ _)]
    simp [broken, foreign, hn]

/-- A change of owned sections changes no other one. -/
theorem foreign_map {f g : ConfigSection → Bytes} {sections : List ConfigSection} (breaks : Bytes)
    (h : ∀ s ∈ sections, s.name ∉ signedNames repositories → f s = g s) :
    foreign repositories (broken breaks (sections.map fun s => (s.name, f s)).reverse) =
      foreign repositories (broken breaks (sections.map fun s => (s.name, g s)).reverse) := by
  have hplain (sections : List ConfigSection) (h : ∀ s ∈ sections, s.name ∉ signedNames repositories → f s = g s) :
      foreign repositories (sections.map fun s => (s.name, f s)) = foreign repositories (sections.map fun s => (s.name, g s)) := by
    induction sections with
    | nil => rfl
    | cons s rest ih =>
      have hrest := ih fun x hx => h x (List.mem_cons_of_mem _ hx)
      unfold foreign at hrest ⊢
      by_cases hn : s.name ∈ signedNames repositories
      · simpa [hn] using hrest
      · simpa [hn, h s List.mem_cons_self hn] using hrest
  rw [← List.map_reverse, ← List.map_reverse]
  have hrev : ∀ s ∈ sections.reverse, s.name ∉ signedNames repositories → f s = g s :=
    fun s hs => h s (List.mem_reverse.mp hs)
  revert hrev
  generalize sections.reverse = l
  intro hrev
  cases l with
  | nil => rfl
  | cons s rest =>
    have hrest := hplain rest fun x hx => hrev x (List.mem_cons_of_mem _ hx)
    simp only [broken, List.map_cons, List.modifyHead_cons]
    unfold foreign at hrest ⊢
    by_cases hn : s.name ∈ signedNames repositories
    · simpa [hn] using hrest
    · simpa [hn, hrev s List.mem_cons_self hn] using hrest

/-- The sections that are not owned keep their bytes; where sections are appended, line breaks
come after the last one. -/
theorem rewriteConfig_foreign (hs : ∀ repository ∈ repositories, Signed repository) {input output : Bytes}
    (h : rewriteConfig input repositories = .ok output)
    (hu : ∀ s ∈ (parseSections input).1, s.name ∈ signedNames repositories → Unjoined s.lines) :
    ∃ breaks, breaks ∈ ([[], [0x0A], [0x0A, 0x0A]] : List Bytes) ∧ (missingRepositories repositories input = [] → breaks = []) ∧
      foreign repositories ((parseSections output).1.map fun s => (s.name, s.bytes)).reverse =
        foreign repositories (broken breaks ((parseSections input).1.map fun s => (s.name, s.bytes)).reverse) := by
  have hscan := scanText_sections (σ := byteScan) output
  simp only [byteScan_section] at hscan
  refine ⟨if missingRepositories repositories input = [] then [] else breaksBefore (rewrittenBody repositories input), ?_,
    fun hnone => if_pos hnone, ?_⟩
  · unfold breaksBefore
    split_ifs <;> simp
  · have hm : ∀ repository ∈ missingRepositories repositories input, repository ∈ repositories :=
      fun x hx => (List.mem_filter.mp hx).1
    rw [← hscan, rewriteConfig_text h, foreign_missings hs hm, scanText_body hs input hu]
    refine foreign_map _ fun s _ hn => ?_
    have hnone : findOwned repositories s.name = none := by
      cases hfind : findOwned repositories s.name with
      | none => rfl
      | some repository =>
        obtain ⟨hr, hname⟩ := findOwned_some hfind
        exact absurd (List.mem_map.mpr ⟨repository, hr, hname⟩) hn
    rw [Scan.rewritten, hnone, byteScan_section]

end

/-! ## The rewritten sections -/

section
variable {repositories : List Repository}

theorem findOwned_mem {repository : Repository} (hnodup : (signedNames repositories).Nodup) (hr : repository ∈ repositories) :
    findOwned repositories (utf8 repository.name) = some repository := by
  induction repositories with
  | nil => cases hr
  | cons first rest ih =>
    rw [signedNames, List.map_cons, ← signedNames, List.nodup_cons] at hnodup
    rcases List.mem_cons.mp hr with rfl | hr
    · exact List.find?_cons_of_pos (decide_eq_true rfl)
    · have hne : utf8 first.name ≠ utf8 repository.name :=
        fun heq => hnodup.1 (heq ▸ List.mem_map.mpr ⟨repository, hr, rfl⟩)
      have hrest := ih hnodup.2 hr
      exact (List.find?_cons_of_neg (by simpa using hne)).trans hrest

theorem checkSections_nodup {sections : List ConfigSection} {seen present : List Bytes}
    (h : checkSections repositories seen sections = .ok present) : present.Nodup ∧ ∀ name ∈ present, name ∉ seen := by
  induction sections generalizing seen present with
  | nil =>
    cases h
    simp
  | cons s rest ih =>
    rw [checkSections] at h
    cases hfind : findOwned repositories s.name with
    | none =>
      simp only [hfind] at h
      split_ifs at h
      exact ih h
    | some repository =>
      simp only [hfind] at h
      split_ifs at h with hseen
      cases hrest : checkSections repositories (s.name :: seen) rest with
      | error e => simp [hrest] at h
      | ok names =>
        simp only [hrest, Except.ok.injEq] at h
        obtain ⟨hnodup, hnew⟩ := ih hrest
        rw [← h]
        refine ⟨List.nodup_cons.mpr ⟨fun hmem => hnew _ hmem List.mem_cons_self, hnodup⟩, fun name hname => ?_⟩
        rcases List.mem_cons.mp hname with rfl | hname
        · exact hseen
        · exact fun hmem => hnew name hname (List.mem_cons_of_mem _ hmem)

/-- The texts of the sections of the rewritten text. -/
theorem rewriteConfig_texts (hs : ∀ repository ∈ repositories, Signed repository) {input output : Bytes}
    (h : rewriteConfig input repositories = .ok output)
    (hu : ∀ s ∈ (parseSections input).1, s.name ∈ signedNames repositories → Unjoined s.lines) {s' : ConfigSection}
    (hs' : s' ∈ (parseSections output).1) :
    (∃ s ∈ (parseSections input).1, s'.name = s.name ∧ s'.texts = textScan.rewritten repositories s) ∨
      ∃ repository ∈ missingRepositories repositories input,
        s'.name = utf8 repository.name ∧ s'.texts = textScan.added repository := by
  have hsections := rewriteConfig_sections textScan_unbroken hs h hu
  have hmem : (s'.name, textScan.section s') ∈ (parseSections output).1.map fun s => (s.name, textScan.section s) :=
    List.mem_map.mpr ⟨s', hs', rfl⟩
  rw [hsections, List.mem_append, List.mem_map, List.mem_map] at hmem
  rcases hmem with ⟨s, hs, heq⟩ | ⟨repository, hr, heq⟩
  · obtain ⟨hname, htexts⟩ := Prod.mk.inj heq
    exact .inl ⟨s, hs, hname.symm, by rw [htexts, textScan_section]⟩
  · obtain ⟨hname, htexts⟩ := Prod.mk.inj heq
    exact .inr ⟨repository, hr, hname.symm, by rw [htexts, textScan_section]⟩

theorem rewritten_served (hs : ∀ repository ∈ repositories, Signed repository) {input output : Bytes}
    (h : rewriteConfig input repositories = .ok output)
    (hu : ∀ s ∈ (parseSections input).1, s.name ∈ signedNames repositories → Unjoined s.lines) {repository : Repository}
    (hr : repository ∈ repositories) :
    ∃ s', (parseSections output).1.filter (fun s => s.name = utf8 repository.name) = [s'] ∧ Served repository s'.texts := by
  obtain ⟨hnodup, horder⟩ := rewriteConfig_order hs h
  have hn : utf8 repository.name ∈ signedNames repositories := List.mem_map.mpr ⟨repository, hr, rfl⟩
  have hpresent : (ownedOrder repositories input).Nodup := by
    obtain ⟨present, hcheck⟩ : ∃ present, checkSections repositories [] (parseSections input).1 = .ok present := by
      unfold rewriteConfig at h
      split_ifs at h
      simp only at h
      split_ifs at h
      cases hdup : duplicateName [] repositories with
      | some name => simp [hdup] at h
      | none =>
        cases hcheck : checkSections repositories [] (parseSections input).1 with
        | error e => simp [hdup, hcheck] at h
        | ok present => exact ⟨present, rfl⟩
    rw [show ownedOrder repositories input = present from (checkSections_present hcheck).symm]
    exact (checkSections_nodup hcheck).1
  have houtput : (ownedOrder repositories output).Nodup := by
    rw [horder]
    refine List.Nodup.append hpresent (hnodup.filter _) fun name hin hout => ?_
    simpa [hin] using (List.mem_filter.mp hout).2
  have hmem : utf8 repository.name ∈ ownedOrder repositories output := by
    rw [horder]
    by_cases hin : utf8 repository.name ∈ ownedOrder repositories input
    · exact List.mem_append_left _ hin
    · exact List.mem_append_right _ (List.mem_filter.mpr ⟨hn, by simpa using hin⟩)
  have hcount : ((parseSections output).1.filter fun s => s.name = utf8 repository.name).length = 1 := by
    have hone := List.count_eq_one_of_mem houtput hmem
    rw [ownedOrder, List.count_filter (by simpa using hn), sectionNames, List.count, List.countP_map,
      List.countP_eq_length_filter] at hone
    rw [← hone]
    congr 1
    exact List.filter_congr fun s _ => (beq_eq_decide _ _).symm
  obtain ⟨s', hs'⟩ := List.length_eq_one_iff.mp hcount
  refine ⟨s', hs', ?_⟩
  have hin : s' ∈ (parseSections output).1.filter fun s => s.name = utf8 repository.name := by
    rw [hs']
    exact List.mem_singleton_self _
  obtain ⟨hin, hname⟩ := List.mem_filter.mp hin
  rw [decide_eq_true_eq] at hname
  rcases rewriteConfig_texts hs h hu hin with ⟨s, -, hsame, htexts⟩ | ⟨other, hother, hsame, htexts⟩
  · rw [hsame] at hname
    rw [htexts, Scan.rewritten, hname, findOwned_mem hnodup hr]
    simp only
    rw [textScan_lines]
    exact served_rewritten repository s.lines
  · have hsame' : other = repository := by
      have hfind := findOwned_mem hnodup hr
      rw [← hname, hsame, findOwned_mem hnodup (List.mem_filter.mp hother).1] at hfind
      exact Option.some.inj hfind
    rw [htexts, hsame']
    exact served_added repository

theorem rewritten_stayed (hs : ∀ repository ∈ repositories, Signed repository) {input output : Bytes}
    (h : rewriteConfig input repositories = .ok output)
    (hu : ∀ s ∈ (parseSections input).1, s.name ∈ signedNames repositories → Unjoined s.lines) {s : ConfigSection}
    (hs₀ : s ∈ (parseSections input).1) (hn : s.name ∈ signedNames repositories) :
    ∃ s' ∈ (parseSections output).1, s'.name = s.name ∧ s'.texts.filter stays =
      s.texts.filter stays ++ if s.lines.any (isDirective "siglevel") = true then [] else [sigLevelText] := by
  have hsections := rewriteConfig_sections textScan_unbroken hs h hu
  have hmem : (s.name, textScan.rewritten repositories s) ∈
      (parseSections output).1.map fun s => (s.name, textScan.section s) := by
    rw [hsections]
    exact List.mem_append_left _ (List.mem_map.mpr ⟨s, hs₀, rfl⟩)
  obtain ⟨s', hs', heq⟩ := List.mem_map.mp hmem
  obtain ⟨hname, htexts⟩ := Prod.mk.inj heq
  rw [textScan_section] at htexts
  refine ⟨s', hs', hname, ?_⟩
  cases hfind : findOwned repositories s.name with
  | none => exact absurd hn (findOwned_none hfind)
  | some repository =>
    rw [htexts, Scan.rewritten, hfind]
    simp only
    rw [textScan_lines]
    exact stays_rewritten repository s.lines

end

/-- Where nothing is written on to a line that was there: one section for each repository, with one
server and no include; the other lines of owned sections stay, and so do the other sections, but
for line breaks after the last one. -/
theorem rewritten_lines (literal : List Char → Option (List Char)) (manifestUrl : String) (tx : Transaction)
    (hsigned : ∀ repository ∈ tx.repositories, validateRepositoryURL literal manifestUrl tx repository = .ok ())
    (input output : Bytes) (h : rewriteConfig input tx.repositories = .ok output)
    (hu : ∀ s ∈ (parseSections input).1, s.name ∈ signedNames tx.repositories → Unjoined s.lines) :
    (∀ repository ∈ tx.repositories, ∃ s',
      (parseSections output).1.filter (fun s => s.name = utf8 repository.name) = [s'] ∧ Served repository s'.texts) ∧
    (∀ s ∈ (parseSections input).1, s.name ∈ signedNames tx.repositories → ∃ s' ∈ (parseSections output).1,
      s'.name = s.name ∧ s'.texts.filter stays =
        s.texts.filter stays ++ if s.lines.any (isDirective "siglevel") = true then [] else [sigLevelText]) ∧
    ∃ breaks, breaks ∈ ([[], [0x0A], [0x0A, 0x0A]] : List Bytes) ∧
      (missingRepositories tx.repositories input = [] → breaks = []) ∧
      foreign tx.repositories ((parseSections output).1.map fun s => (s.name, s.bytes)).reverse =
        foreign tx.repositories (broken breaks ((parseSections input).1.map fun s => (s.name, s.bytes)).reverse) := by
  have hs : ∀ repository ∈ tx.repositories, Signed repository := fun x hx => validate_signed (hsigned x hx)
  exact ⟨fun _ hr => rewritten_served hs h hu hr, fun _ hs₀ hn => rewritten_stayed hs h hu hs₀ hn,
    rewriteConfig_foreign hs h hu⟩

/-- A comment and a setting stay, the server and the include go. -/
theorem rewritten_lines_core : ∃ output,
    rewriteConfig (utf8 "[options]\n[core]\n# old\nServer = https://old.invalid/\nInclude = /x\nUsage = All\n")
      sampleTransaction.repositories = .ok output ∧
    ∀ repository ∈ sampleTransaction.repositories, ∃ s',
      (parseSections output).1.filter (fun s => s.name = utf8 repository.name) = [s'] ∧ Served repository s'.texts := by
  refine ⟨_, rfl, (rewritten_lines (fun _ => none) "https://repo.invalid/m" sampleTransaction sample_signed
    (utf8 "[options]\n[core]\n# old\nServer = https://old.invalid/\nInclude = /x\nUsage = All\n") _ rfl ?_).1⟩
  intro s hs _ line hline
  have hopen : ((parseSections (utf8 "[options]\n[core]\n# old\nServer = https://old.invalid/\nInclude = /x\nUsage = All\n")).1.map
      fun s => openLine s.lines) = [none, some []] := by decide
  have hmem : openLine s.lines ∈ ((parseSections (utf8
      "[options]\n[core]\n# old\nServer = https://old.invalid/\nInclude = /x\nUsage = All\n")).1.map
        fun s => openLine s.lines) := List.mem_map.mpr ⟨s, hs, rfl⟩
  rw [hopen, hline] at hmem
  left
  simpa using hmem

/-- A section that is last gets a blank line where others are appended. -/
theorem blank_line_added : ∃ (tx : Transaction) (output : Bytes),
    (∀ repository ∈ tx.repositories,
      validateRepositoryURL (fun _ => none) "https://repo.invalid/m" tx repository = .ok ()) ∧
    rewriteConfig (utf8 "[options]\n") tx.repositories = .ok output ∧
    ((parseSections (utf8 "[options]\n")).1.map fun s => (s.name, s.bytes)) = [(utf8 "options", utf8 "[options]\n")] ∧
    ∀ s ∈ (parseSections output).1, s.bytes ≠ utf8 "[options]\n" :=
  ⟨sampleTransaction, _, sample_signed, rfl, by decide, by decide⟩

end Omapkg.Client
