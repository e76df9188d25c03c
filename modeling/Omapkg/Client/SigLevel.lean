import Omapkg.Client.ConfigScan
/-!
# Signature levels

What pacman makes of the `SigLevel` lines of the rewritten sections. `rewriteConfig`
looks for the word `required` in them; pacman takes their tokens one after the
other, and the last one that speaks of packages counts.
-/

namespace Omapkg.Client

open Utf

/-! ## What pacman reads -/

inductive Level where
  | never | optional | required
  deriving DecidableEq

/-- What a token says of packages. -/
def tokenLevel (token : List Char) : Option Level :=
  if token = "Never".toList ∨ token = "PackageNever".toList then some .never
  else if token = "Optional".toList ∨ token = "PackageOptional".toList then some .optional
  else if token = "Required".toList ∨ token = "PackageRequired".toList then some .required
  else none

def isSpace (c : Char) : Bool := c = '\n' || isGoSpace c

/-- The words of a value. -/
def words (value : List Char) : List (List Char) := (value.splitOnP isSpace).filter (· ≠ [])

/-- The name before the first `=` of a line, without the blanks around it. -/
def lineKey (line : List Rune) : List Char :=
  (((chars (trimSpace line)).takeWhile (· ≠ '=')).reverse.dropWhile isSpace).reverse

def isSigLevel (line : List Rune) : Bool := (chars (trimSpace line)).contains '=' && lineKey line = "SigLevel".toList

def lineValue (line : List Rune) : List Char := ((chars (trimSpace line)).dropWhile (· ≠ '=')).tail

/-- The level of packages after a line; a later token counts more. -/
def levelAfter (level : Option Level) (line : List Rune) : Option Level :=
  if isSigLevel line then (words (lineValue line)).foldl (fun level token => (tokenLevel token).or level) level else level

/-- What the lines of a section say of packages. -/
def packageLevel (lines : List (List Rune)) : Option Level := lines.foldl levelAfter none

/-! ## Lines that are no levels -/

theorem isTrimmed_eq (r : Rune) : isTrimmed r = isSpace r.char := rfl

theorem trimSpace_leading {blanks : List Rune} (h : blanks.all isTrimmed = true) (line : List Rune) :
    trimSpace (blanks ++ line) = trimSpace line := by
  unfold trimSpace
  rw [List.dropWhile_append_of_pos (by simpa using h)]

theorem levelAfter_trailing (level : Option Level) (line : List Rune) {blanks : List Rune} (h : blanks.all isTrimmed = true) :
    levelAfter level (line ++ blanks) = levelAfter level line := by
  have htrim := trimSpace_trailing line h
  have hsig : isSigLevel (line ++ blanks) = isSigLevel line := by rw [isSigLevel, isSigLevel, lineKey, lineKey, htrim]
  rw [levelAfter, levelAfter, hsig, lineValue, lineValue, htrim]

/-- The name of a level line is where its trimmed text starts. -/
theorem isSigLevel_start {line : List Rune} (h : isSigLevel line = true) :
    "SigLevel".toList <+: chars (trimSpace line) ∧ '=' ∈ chars (trimSpace line) := by
  rw [isSigLevel, Bool.and_eq_true, List.contains_eq_mem, decide_eq_true_eq, decide_eq_true_eq] at h
  refine ⟨?_, h.1⟩
  rw [← h.2, lineKey]
  have hkey := List.dropWhile_suffix isSpace (l := ((chars (trimSpace line)).takeWhile (· ≠ '=')).reverse)
  have hstart := List.reverse_prefix.mpr hkey
  rw [List.reverse_reverse] at hstart
  exact hstart.trans (List.takeWhile_prefix _)

theorem directive_of_start {line : List Rune} (hstart : "SigLevel".toList <+: chars (trimSpace line))
    (heq : '=' ∈ chars (trimSpace line)) : isDirective "siglevel" line = true := by
  simp only [isDirective, Bool.and_eq_true, List.contains_eq_mem, decide_eq_true_eq]
  refine ⟨?_, heq⟩
  rw [List.isPrefixOf_iff_prefix]
  have hmap : ("SigLevel".toList.map lowerChar) <+: (chars (trimSpace line)).map lowerChar := hstart.map lowerChar
  have hlower : (chars (trimSpace line)).map lowerChar = lowered (trimSpace line) := by
    simp [chars, lowered]
  rw [hlower] at hmap
  exact hmap

theorem isSigLevel_directive {line : List Rune} (h : isSigLevel line = true) : isDirective "siglevel" line = true :=
  directive_of_start (isSigLevel_start h).1 (isSigLevel_start h).2

/-- A line starts as one directive. -/
theorem not_isSigLevel {name : String} {line : List Rune} (h : isDirective name line = true)
    (hname : name = "server" ∨ name = "include") : isSigLevel line = false := by
  by_contra hsig
  have hsig' := isSigLevel_directive (Bool.not_eq_false _ ▸ hsig : isSigLevel line = true)
  simp only [isDirective, Bool.and_eq_true, List.isPrefixOf_iff_prefix] at h hsig'
  rcases List.prefix_or_prefix_of_prefix h.1 hsig'.1 with hp | hp <;> rcases hname with rfl | rfl <;> revert hp <;> decide

theorem levelAfter_other {name : String} {line : List Rune} (h : isDirective name line = true)
    (hname : name = "server" ∨ name = "include") (level : Option Level) : levelAfter level line = level := by
  rw [levelAfter, not_isSigLevel h hname]
  rfl

theorem levelAfter_no_directive {line : List Rune} (h : isDirective "siglevel" line = false) (level : Option Level) :
    levelAfter level line = level := by
  have hsig : isSigLevel line = false := by
    by_contra hsig
    rw [isSigLevel_directive (by simpa using hsig)] at h
    cases h
  rw [levelAfter, hsig]
  rfl

/-! ## Rendered sections -/

def levelScan : Scan (Option Level) where
  start _ := none
  next := levelAfter
  next_nil _ := rfl

@[simp] theorem levelScan_start (line : List Rune) : levelScan.start line = none := rfl

@[simp] theorem levelScan_next : levelScan.next = levelAfter := rfl

theorem levelScan_unbroken : levelScan.Unbroken where
  start _ _ := rfl
  next level line _ := levelAfter_trailing level line (by decide)

theorem scan_unnamed {line : List Rune} (h : lineName line = none) (name : Bytes) (level : Option Level)
    (st : Scanned (Option Level)) : scanStep levelScan ((name, level) :: st) line = (name, levelAfter level line) :: st :=
  scanStep_unnamed h name level st

/-- Whether a section asks for signed packages once it is rewritten. -/
def Asks (repository : Repository) (lines : List (List Rune)) : Prop :=
  if lines.any (isDirective "siglevel") = true then
    match openLine lines with
    | some line =>
      if lines.any (isDirective "server") = true then packageLevel lines = some .required
      else packageLevel (lines.dropLast ++ [line ++ runes (serverLine repository)]) = some .required
    | none => packageLevel lines = some .required
  else ∀ line, openLine lines = some line → line.all isTrimmed = true

section
variable {repositories : List Repository}

theorem trimSpace_head {first : Rune} (h : isTrimmed first = false) (rest : List Rune) :
    ∃ rest', trimSpace (first :: rest) = first :: rest' := by
  unfold trimSpace
  rw [List.dropWhile_cons_of_neg (by simp [h])]
  exact dropWhile_end [] h rest

theorem isBlank_isTrimmed {r : Rune} (h : isBlank r = true) : isTrimmed r = true := by
  simp only [isBlank, List.contains_eq_mem, List.mem_cons, List.not_mem_nil, or_false, decide_eq_true_eq] at h
  rw [isTrimmed_eq]
  rcases h with h | h | h | h | h <;> rw [h] <;> decide

/-- A line that names a section is no level. -/
theorem isSigLevel_named {line : List Rune} {name : Bytes} (h : lineName line = some name) : isSigLevel line = false := by
  obtain ⟨before, l, inner, r, after, heq, hbefore, hl, -, -, -⟩ := sectionName_some h
  have htrim : trimSpace line = trimSpace (l :: (inner ++ r :: after)) := by
    have hsame : trimSpace line = trimSpace (trimNewline line) := by
      unfold trimNewline
      cases hlast : line.getLast? with
      | none => rfl
      | some x =>
        obtain ⟨body, rfl⟩ := List.getLast?_eq_some_iff.mp hlast
        simp only
        split_ifs with hx
        · rw [List.dropLast_concat]
          exact trimSpace_trailing body (by simp [isTrimmed, hx])
        · rfl
    rw [hsame, heq]
    refine trimSpace_leading (List.all_eq_true.mpr fun x hx => ?_) _
    exact isBlank_isTrimmed (List.all_eq_true.mp hbefore x hx)
  have hltrim : isTrimmed l = false := by
    rw [isTrimmed_eq, hl]
    decide
  obtain ⟨rest, hrest⟩ := trimSpace_head hltrim (inner ++ r :: after)
  by_contra hsig
  obtain ⟨⟨tail, htail⟩, -⟩ := isSigLevel_start (by simpa using hsig)
  rw [htrim, hrest] at htail
  have hhead := congrArg List.head? htail
  rw [chars, List.map_cons, hl] at hhead
  revert hhead
  simp

theorem lineName_written (hs : ∀ repository ∈ repositories, Signed repository) {bytes : Bytes}
    (hn : (0x0A : UInt8) ∉ bytes) (hS : (0x53 : UInt8) ∈ bytes) {name : Bytes}
    (h : lineName (runes (bytes ++ [0x0A])) = some name) : name ∉ signedNames repositories := by
  intro hname
  have hown := ownedOrder_capital hs hn hS
  have hline := (isLine_written hn).names
  rw [runeBytes_runes, h, sectionNames_break] at hline
  have hnil : sectionNames [] = [] := rfl
  rw [hnil, List.append_nil] at hline
  rw [ownedOrder, hline] at hown
  simp [hname] at hown

/-- A written line makes no owned section, and counts as a line of the one before it or
begins one that is not owned. -/
theorem scanText_written (hs : ∀ repository ∈ repositories, Signed repository) {bytes : Bytes} (hn : (0x0A : UInt8) ∉ bytes)
    (hS : (0x53 : UInt8) ∈ bytes) (name : Bytes) (level : Option Level) (st : Scanned (Option Level)) :
    (∃ other, other ∉ signedNames repositories ∧ isSigLevel (runes (bytes ++ [0x0A])) = false ∧
      scanText levelScan ((name, level) :: st) (bytes ++ [0x0A]) = (other, none) :: (name, level) :: st) ∨
    scanText levelScan ((name, level) :: st) (bytes ++ [0x0A]) = (name, levelAfter level (runes (bytes ++ [0x0A]))) :: st := by
  have hscan := scanText_line (σ := levelScan) ((name, level) :: st) (isLine_written hn)
  rw [runeBytes_runes] at hscan
  cases hname : lineName (runes (bytes ++ [0x0A])) with
  | none =>
    right
    rw [hscan, scan_unnamed hname]
  | some other =>
    left
    exact ⟨other, lineName_written hs hn hS hname, isSigLevel_named hname, by rw [hscan]; simp [scanStep, hname]⟩

theorem scan_serverLine (hs : ∀ repository ∈ repositories, Signed repository) {repository : Repository}
    (hr : repository ∈ repositories) (name : Bytes) (level : Option Level) (st : Scanned (Option Level)) :
    scanText levelScan ((name, level) :: st) (serverLine repository) = (name, level) :: st := by
  obtain ⟨hline, hname, -⟩ := serverLine_isLine (hs repository hr)
  have hscan := scanText_line (σ := levelScan) ((name, level) :: st) hline
  rw [runeBytes_runes] at hscan
  rw [hscan, scan_unnamed hname, levelAfter_other (isDirective_server repository) (.inl rfl)]

theorem levelAfter_sigLevelLine (level : Option Level) : levelAfter level (runes sigLevelLine) = some .required := by
  cases level with
  | none => decide
  | some level => cases level <;> decide

theorem scan_sigLevelLine (name : Bytes) (level : Option Level) (st : Scanned (Option Level)) :
    scanText levelScan ((name, level) :: st) sigLevelLine = (name, some .required) :: st := by
  obtain ⟨hline, hname, -⟩ := sigLevelLine_isLine
  have hscan := scanText_line (σ := levelScan) ((name, level) :: st) hline
  rw [runeBytes_runes] at hscan
  rw [hscan, scan_unnamed hname, levelAfter_sigLevelLine]

/-- The lines that stay, one after the other; the last of them may lack its break. -/
theorem renderLines_scan (hs : ∀ repository ∈ repositories, Signed repository) {repository : Repository}
    (hr : repository ∈ repositories) {ls : List (List Rune)} (hf : Finished ls)
    (hl : ∀ line ∈ ls, IsLine line ∧ lineName line = none) (inserted : Bool) (name : Bytes) (level : Option Level)
    (st : Scanned (Option Level)) :
    (openLine ls = none → Closed (renderLines repository inserted ls).1 ∧
      scanText levelScan ((name, level) :: st) (renderLines repository inserted ls).1 = (name, ls.foldl levelAfter level) :: st) ∧
    ∀ line, openLine ls = some line → ∃ before, (renderLines repository inserted ls).1 = before ++ runeBytes line ∧
      Closed before ∧ scanText levelScan ((name, level) :: st) before = (name, ls.dropLast.foldl levelAfter level) :: st := by
  induction ls generalizing inserted level with
  | nil => exact ⟨fun _ => ⟨.inl rfl, scanText_nil _⟩, by simp [openLine]⟩
  | cons line rest ih =>
    obtain ⟨hline, hname⟩ := hl line List.mem_cons_self
    have hrest := fun x hx => hl x (List.mem_cons_of_mem _ hx)
    -- what stands for a line that was closed, and the rest
    have hcons (bytes : Bytes) (hclosed : Closed bytes)
        (hscan : scanText levelScan ((name, level) :: st) bytes = (name, levelAfter level line) :: st) (inserted' : Bool)
        (hne : rest ≠ [] ∨ stays line = false ∨ Ended line) :
        (openLine (line :: rest) = none → Closed (bytes ++ (renderLines repository inserted' rest).1) ∧
          scanText levelScan ((name, level) :: st) (bytes ++ (renderLines repository inserted' rest).1) =
            (name, (line :: rest).foldl levelAfter level) :: st) ∧
        ∀ last, openLine (line :: rest) = some last → ∃ before,
          bytes ++ (renderLines repository inserted' rest).1 = before ++ runeBytes last ∧ Closed before ∧
            scanText levelScan ((name, level) :: st) before = (name, (line :: rest).dropLast.foldl levelAfter level) :: st := by
      have hopen : openLine (line :: rest) = openLine rest := by
        cases rest with
        | nil =>
          rcases hne with hne | hne | hne
          · exact absurd rfl hne
          · simp [openLine, hne]
          · simp [openLine, endsWithBreak_iff.mpr hne]
        | cons next rest => simp [openLine]
      obtain ⟨hnone, hsome⟩ := ih hf.tail hrest inserted' (levelAfter level line)
      rw [hopen]
      constructor
      · intro h
        obtain ⟨hclosed', hscan'⟩ := hnone h
        exact ⟨hclosed.append hclosed', by rw [scanText_closed _ hclosed, hscan, hscan']; rfl⟩
      · intro last h
        obtain ⟨before, heq, hclosed', hscan'⟩ := hsome last h
        refine ⟨bytes ++ before, by rw [heq, List.append_assoc], hclosed.append hclosed', ?_⟩
        have hdrop : (line :: rest).dropLast = line :: rest.dropLast := by
          cases rest with
          | nil => simp [openLine] at h
          | cons next rest => rfl
        rw [scanText_closed _ hclosed, hscan, hscan', hdrop]
        rfl
    by_cases hserver : isDirective "server" line = true
    · rw [renderLines, if_pos hserver]
      have hlevel := levelAfter_other hserver (.inl rfl) level
      refine hcons (if inserted = true then [] else serverLine repository) ?_ ?_ true (.inr (.inl (by simp [stays, hserver])))
      · split_ifs
        · exact .inl rfl
        · exact closed_serverLine (hs repository hr)
      · rw [hlevel]
        split_ifs
        · exact scanText_nil _
        · exact scan_serverLine hs hr name level st
    · by_cases hinclude : isDirective "include" line = true
      · rw [renderLines, if_neg hserver, if_pos hinclude]
        have hlevel := levelAfter_other hinclude (.inr rfl) level
        exact hcons [] (.inl rfl) (by rw [scanText_nil, hlevel]) inserted (.inr (.inl (by simp [stays, hinclude])))
      · rw [renderLines, if_neg hserver, if_neg hinclude]
        have hscan : scanText levelScan ((name, level) :: st) (runeBytes line) = (name, levelAfter level line) :: st := by
          rw [scanText_line _ hline, scan_unnamed hname]
        by_cases hended : Ended line
        · exact hcons (runeBytes line) (hline.closed hended) hscan inserted (.inr (.inr hended))
        · cases rest with
          | cons next rest => exact absurd hf.1 hended
          | nil =>
            have hopen : openLine [line] = some line := by
              have hbreak : endsWithBreak line = false := by
                rw [Bool.eq_false_iff]
                exact fun h => hended (endsWithBreak_iff.mp h)
              simp [openLine, hbreak, stays, hserver, hinclude]
            rw [hopen]
            refine ⟨by simp, ?_⟩
            intro last hlast
            obtain rfl := Option.some.inj hlast
            exact ⟨[], by simp [renderLines], .inl rfl, scanText_nil _⟩

/-- A signature level that is written on to an open line is one only where that is blank. -/
theorem isSigLevel_appended {line : List Rune} (h : isDirective "siglevel" line = false) :
    isSigLevel (line ++ runes sigLevelLine) = true ↔ line.all isTrimmed = true := by
  have hword : runes sigLevelLine = ⟨'S', [0x53]⟩ :: runes (utf8 "igLevel = Required TrustedOnl") ++
      ⟨'y', [0x79]⟩ :: [⟨'\n', [0x0A]⟩] := by decide +kernel
  constructor
  · intro hsig
    by_contra hblank
    have hne : line.dropWhile isTrimmed ≠ [] := fun hnil =>
      hblank (List.all_eq_true.mpr (List.dropWhile_eq_nil_iff.mp hnil))
    obtain ⟨first, rest, hfirst⟩ := List.exists_cons_of_ne_nil hne
    have hnot : isTrimmed first = false := by
      have := List.head_dropWhile_not isTrimmed hne
      simpa [hfirst] using this
    have htrim : trimSpace (line ++ runes sigLevelLine) =
        first :: rest ++ runes (utf8 "SigLevel = Required TrustedOnly") := by
      have hdrop : (line ++ runes sigLevelLine).dropWhile isTrimmed = first :: rest ++ runes sigLevelLine := by
        rw [List.dropWhile_append, hfirst]
        simp
      rw [trimSpace, hdrop, hword, ← List.append_assoc, List.reverse_append, List.reverse_cons, List.reverse_singleton]
      have hend : runes (utf8 "SigLevel = Required TrustedOnly") =
        ⟨'S', [0x53]⟩ :: runes (utf8 "igLevel = Required TrustedOnl") ++ [⟨'y', [0x79]⟩] := by decide +kernel
      rw [hend]
      simp [isTrimmed, isGoSpace]
    have hchars : chars (trimSpace (line ++ runes sigLevelLine)) =
        chars (first :: rest) ++ "SigLevel = Required TrustedOnly".toList := by
      have htext : chars (runes (utf8 "SigLevel = Required TrustedOnly")) = "SigLevel = Required TrustedOnly".toList := by
        decide
      rw [htrim, chars, List.map_append, ← chars, ← chars, htext]
    have hkey : lineKey (line ++ runes sigLevelLine) = "SigLevel".toList := by
      rw [isSigLevel, Bool.and_eq_true, decide_eq_true_eq] at hsig
      exact hsig.2
    rw [lineKey, hchars] at hkey
    by_cases hequals : '=' ∈ chars (first :: rest)
    · -- the line has a name of its own, and that is a level already
      obtain ⟨p, q, hsplit, hp⟩ := List.eq_append_cons_of_mem hequals
      obtain ⟨pre, post, hrunes, hpre, hpost⟩ := List.map_eq_append_iff.mp hsplit
      obtain ⟨e, zs, rfl, he, -⟩ := List.map_eq_cons_iff.mp hpost
      have htake : (chars (first :: rest) ++ "SigLevel = Required TrustedOnly".toList).takeWhile (· ≠ '=') = p := by
        rw [hsplit, List.append_assoc, List.takeWhile_append_of_pos, List.cons_append, List.takeWhile_cons_of_neg (by simp),
          List.append_nil]
        intro c hc
        have hne : c ≠ '=' := fun h => hp (h ▸ hc)
        simpa using hne
      rw [htake] at hkey
      have hstart : "SigLevel".toList <+: p := by
        have hsuffix := List.dropWhile_suffix isSpace (l := p.reverse)
        have hrev := List.reverse_prefix.mpr hsuffix
        rwa [List.reverse_reverse, hkey] at hrev
      have hetrim : isTrimmed e = false := by
        rw [isTrimmed_eq, he]
        decide
      obtain ⟨zs', hend⟩ := dropWhile_end pre hetrim zs
      have hline : trimSpace line = pre ++ e :: zs' := by rw [trimSpace, hfirst, hrunes, hend]
      have hchars' : chars (trimSpace line) = p ++ '=' :: chars zs' := by
        rw [hline, chars, List.map_append, hpre, List.map_cons, he]
        rfl
      rw [directive_of_start (by rw [hchars']; exact hstart.trans (List.prefix_append _ _)) (by rw [hchars']; simp)] at h
      cases h
    · have htake : (chars (first :: rest) ++ "SigLevel = Required TrustedOnly".toList).takeWhile (· ≠ '=') =
          chars (first :: rest) ++ "SigLevel ".toList := by
        rw [List.takeWhile_append_of_pos]
        · rfl
        · intro c hc
          have hne : c ≠ '=' := fun h => hequals (h ▸ hc)
          simpa using hne
      have htrimmed : ((chars (first :: rest) ++ "SigLevel ".toList).reverse.dropWhile isSpace).reverse =
          chars (first :: rest) ++ "SigLevel".toList := by
        have hspace : isSpace ' ' = true := by decide
        have hlast : isSpace 'l' = false := by decide
        simp [hspace, hlast]
      rw [htake, htrimmed] at hkey
      have hlength := congrArg List.length hkey
      simp [chars] at hlength
  · intro hblank
    have hsig : isSigLevel (runes sigLevelLine) = true := by decide
    have htrim := trimSpace_leading hblank (runes sigLevelLine)
    rw [isSigLevel, lineKey, htrim]
    rw [isSigLevel, lineKey] at hsig
    exact hsig

/-- What is written on to an open line, up to its break, is one line with it. -/
theorem scan_appended (hs : ∀ repository ∈ repositories, Signed repository) {line : List Rune} (hline : IsLine line)
    (hopen : ¬Ended line) {written bytes : Bytes} (hwritten : written = 0x53 :: bytes ++ [0x0A])
    (hn : (0x0A : UInt8) ∉ 0x53 :: bytes) (name : Bytes) (level : Option Level) (st : Scanned (Option Level)) :
    (∃ other, other ∉ signedNames repositories ∧ isSigLevel (line ++ runes written) = false ∧
      scanText levelScan ((name, level) :: st) (runeBytes line ++ written) = (other, none) :: (name, level) :: st) ∨
    scanText levelScan ((name, level) :: st) (runeBytes line ++ written) = (name, levelAfter level (line ++ runes written)) :: st := by
  have hunbroken : ∀ r ∈ line, r.char ≠ '\n' := by
    rcases hline.shape with h | ⟨body, r, rfl, hr, -⟩
    · exact h
    · exact absurd ⟨body, r, rfl, hr⟩ hopen
  have hnone : (0x0A : UInt8) ∉ runeBytes line ++ 0x53 :: bytes := by
    rw [List.mem_append]
    rintro (h | h)
    · obtain ⟨a, b, hsplit⟩ := List.append_of_mem h
      have hrunes := hline.stable
      rw [hsplit, runes_append_ascii (by decide), runes_ascii (by decide)] at hrunes
      exact hunbroken _ (hrunes ▸ List.mem_append_right _ List.mem_cons_self) (by decide)
    · exact hn h
  have hS : (0x53 : UInt8) ∈ runeBytes line ++ 0x53 :: bytes := by simp
  have hrunes : runes (runeBytes line ++ 0x53 :: bytes ++ [0x0A]) = line ++ runes written := by
    rw [hwritten, List.append_assoc, List.cons_append, runes_append_ascii (by decide), hline.stable]
  have hbytes : runeBytes line ++ written = runeBytes line ++ 0x53 :: bytes ++ [0x0A] := by
    rw [hwritten, List.append_assoc]
  have hscan := scanText_written hs hnone hS name level st
  rw [hrunes] at hscan
  rw [hbytes]
  exact hscan

theorem serverLine_capital {repository : Repository} (h : Signed repository) :
    ∃ bytes, serverLine repository = 0x53 :: bytes ++ [0x0A] ∧ (0x0A : UInt8) ∉ 0x53 :: bytes := by
  obtain ⟨line, heq, hn, -⟩ := serverLine_eq h
  cases line with
  | nil =>
    have hhead : (serverLine repository).head? = some 0x53 := by
      rw [serverLine, utf8_append, utf8_append]
      rfl
    rw [heq] at hhead
    cases hhead
  | cons b bytes =>
    have hhead : (serverLine repository).head? = some 0x53 := by
      rw [serverLine, utf8_append, utf8_append]
      rfl
    rw [heq] at hhead
    obtain rfl : b = 0x53 := by simpa using hhead
    exact ⟨bytes, heq, hn⟩

theorem sigLevelLine_capital : ∃ bytes, sigLevelLine = 0x53 :: bytes ++ [0x0A] ∧ (0x0A : UInt8) ∉ 0x53 :: bytes :=
  ⟨utf8 "igLevel = Required TrustedOnly", by decide, by decide⟩

theorem scan_header {configSection : ConfigSection} (h : IsSection configSection) (st : Scanned (Option Level)) :
    scanText levelScan st (runeBytes configSection.header ++
      if endsWithNewline (runeBytes configSection.header) = true then [] else [0x0A]) = (configSection.name, none) :: st := by
  have hheader : scanText levelScan st (runeBytes configSection.header) = (configSection.name, none) :: st := by
    rw [scanText_line _ h.header]
    simp [scanStep, h.name]
  split_ifs
  · rw [List.append_nil, hheader]
  · rw [scanText_break levelScan_unbroken, hheader, scanText_nil]

/-- What a text leaves for one owned section. -/
def Leaves (repositories : List Repository) (name : Bytes) (level : Option Level) (st st' : Scanned (Option Level)) : Prop :=
  ∃ others, st' = others ++ (name, level) :: st ∧ ∀ p ∈ others, p.1 ∉ signedNames repositories

theorem levels_lines {ls : List (List Rune)} (h : ls.any (isDirective "siglevel") = false) (level : Option Level) :
    ls.foldl levelAfter level = level := by
  induction ls with
  | nil => rfl
  | cons line rest ih =>
    rw [List.any_cons, Bool.or_eq_false_iff] at h
    rw [List.foldl_cons, levelAfter_no_directive h.1, ih h.2]

theorem Leaves.server (hs : ∀ repository ∈ repositories, Signed repository) {repository : Repository} (hr : repository ∈ repositories)
    {name : Bytes} {level : Option Level} {st st' : Scanned (Option Level)} (h : Leaves repositories name level st st')
    (inserted : Bool) : Leaves repositories name level st (scanText levelScan st' (if inserted = true then [] else serverLine repository)) := by
  obtain ⟨others, rfl, hothers⟩ := h
  refine ⟨others, ?_, hothers⟩
  split_ifs
  · exact scanText_nil _
  · cases others with
    | nil => exact scan_serverLine hs hr name level st
    | cons p others => exact scan_serverLine hs hr p.1 p.2 (others ++ (name, level) :: st)

theorem scan_owned (hs : ∀ repository ∈ repositories, Signed repository) {repository : Repository} (hr : repository ∈ repositories)
    {configSection : ConfigSection} (h : IsSection configSection) (hf : Finished configSection.all)
    (st : Scanned (Option Level)) : ∃ level,
    Leaves repositories configSection.name level st (scanText levelScan st (renderOwnedSection configSection repository)) ∧
      (level = some .required ↔ Asks repository configSection.lines) := by
  obtain ⟨hheader, -⟩ := ownedOrder_terminated repositories (runeBytes configSection.header)
  obtain ⟨hnone, hsome⟩ := renderLines_scan hs hr hf.tail h.lines false configSection.name none st
  have hdone : (renderLines repository false configSection.lines).2 = configSection.lines.any (isDirective "server") := by
    rw [renderLines_eq, Bool.false_or]
  have htext : renderOwnedSection configSection repository = (runeBytes configSection.header ++
      if endsWithNewline (runeBytes configSection.header) = true then [] else [0x0A]) ++
      ((renderLines repository false configSection.lines).1 ++
        ((if configSection.lines.any (isDirective "siglevel") = true then [] else sigLevelLine) ++
          if (renderLines repository false configSection.lines).2 = true then [] else serverLine repository)) := by
    simp only [renderOwnedSection, List.append_assoc]
  rw [htext, scanText_closed _ hheader, scan_header h, hdone]
  have hsigClosed : Closed sigLevelLine := by
    obtain ⟨bytes, heq, -⟩ := sigLevelLine_capital
    exact .inr ⟨_, heq⟩
  unfold Asks
  cases hopen : openLine configSection.lines with
  | none =>
    obtain ⟨hclosed, hscan⟩ := hnone hopen
    rw [scanText_closed _ hclosed, hscan]
    by_cases hsig : configSection.lines.any (isDirective "siglevel") = true
    · rw [if_pos hsig, if_pos hsig, List.nil_append]
      exact ⟨packageLevel configSection.lines, Leaves.server hs hr ⟨[], rfl, by simp⟩ _, Iff.rfl⟩
    · rw [if_neg hsig, if_neg hsig, scanText_closed _ hsigClosed, scan_sigLevelLine]
      exact ⟨some .required, Leaves.server hs hr ⟨[], rfl, by simp⟩ _, by simp⟩
  | some line =>
    obtain ⟨before, heq, hclosed, hscan⟩ := hsome line hopen
    obtain ⟨hlast, hstays⟩ := Option.filter_eq_some_iff.mp hopen
    obtain ⟨init, hinit⟩ := List.getLast?_eq_some_iff.mp hlast
    have hline := h.lines line (by rw [hinit]; simp)
    have hended : ¬Ended line := by
      intro hended
      rw [endsWithBreak_iff.mpr hended] at hstays
      simp at hstays
    have hdrop : configSection.lines.dropLast = init := by rw [hinit, List.dropLast_concat]
    rw [heq, List.append_assoc, scanText_closed _ hclosed, hscan, hdrop]
    by_cases hsig : configSection.lines.any (isDirective "siglevel") = true
    · rw [if_pos hsig, if_pos hsig, List.nil_append]
      by_cases hserver : configSection.lines.any (isDirective "server") = true
      · rw [if_pos hserver, List.append_nil, scanText_line _ hline.1, scan_unnamed hline.2]
        refine ⟨packageLevel configSection.lines, ⟨[], ?_, by simp⟩, by simp [hserver]⟩
        rw [packageLevel, hinit, List.foldl_append]
        rfl
      · rw [if_neg hserver]
        obtain ⟨bytes, hbytes, hn⟩ := serverLine_capital (hs repository hr)
        have hlevel : packageLevel (init ++ [line ++ runes (serverLine repository)]) =
            levelAfter (init.foldl levelAfter none) (line ++ runes (serverLine repository)) := by
          rw [packageLevel, List.foldl_append]
          rfl
        simp only [hserver, Bool.false_eq_true, if_false, hlevel]
        rcases scan_appended hs hline.1 hended hbytes hn configSection.name (init.foldl levelAfter none) st with
          ⟨other, hother, hno, hscan'⟩ | hscan'
        · refine ⟨init.foldl levelAfter none, ⟨[(other, none)], hscan', by simpa using hother⟩, ?_⟩
          rw [levelAfter, hno]
          simp
        · exact ⟨_, ⟨[], hscan', by simp⟩, Iff.rfl⟩
    · rw [if_neg hsig, if_neg hsig, ← List.append_assoc]
      have hno : configSection.lines.any (isDirective "siglevel") = false := by simpa using hsig
      have hnoline : isDirective "siglevel" line = false := by
        rw [hinit, List.any_append, Bool.or_eq_false_iff] at hno
        simpa using hno.2
      have hnoinit : init.any (isDirective "siglevel") = false := by
        rw [hinit, List.any_append, Bool.or_eq_false_iff] at hno
        exact hno.1
      rw [levels_lines hnoinit]
      obtain ⟨bytes, hbytes, hn⟩ := sigLevelLine_capital
      have hclosed' : Closed (runeBytes line ++ sigLevelLine) := .inr ⟨_, by rw [hbytes, ← List.append_assoc]⟩
      have hiff := isSigLevel_appended hnoline
      rw [scanText_closed _ hclosed']
      have hasks : (∀ l, some line = some l → l.all isTrimmed = true) ↔ line.all isTrimmed = true := by simp
      rw [hasks, ← hiff]
      rcases scan_appended hs hline.1 hended hbytes hn configSection.name none st with ⟨other, hother, hnot, hscan'⟩ | hscan'
      · rw [hscan', hnot]
        exact ⟨none, Leaves.server hs hr ⟨[(other, none)], rfl, by simpa using hother⟩ _, by simp⟩
      · rw [hscan']
        refine ⟨_, Leaves.server hs hr ⟨[], rfl, by simp⟩ _, ?_⟩
        by_cases hyes : isSigLevel (line ++ runes sigLevelLine) = true
        · have hblank := hiff.mp hyes
          have hvalue : levelAfter none (line ++ runes sigLevelLine) = levelAfter none (runes sigLevelLine) := by
            have htrim := trimSpace_leading hblank (runes sigLevelLine)
            have hsame : isSigLevel (line ++ runes sigLevelLine) = isSigLevel (runes sigLevelLine) := by
              rw [isSigLevel, isSigLevel, lineKey, lineKey, htrim]
            rw [levelAfter, levelAfter, hsame, lineValue, lineValue, htrim]
          rw [hvalue]
          simp [levelAfter_sigLevelLine, hyes]
        · rw [levelAfter, if_neg hyes]
          simp [hyes]

/-! ## The rewritten text -/

/-- The owned sections of a scan. -/
def ownedLevels (repositories : List Repository) (st : Scanned (Option Level)) : Scanned (Option Level) :=
  st.filter fun p => (signedNames repositories).contains p.1

theorem Leaves.owned_eq {name : Bytes} {level : Option Level} {st st' : Scanned (Option Level)}
    (h : Leaves repositories name level st st') (hn : name ∈ signedNames repositories) :
    ownedLevels repositories st' = (name, level) :: ownedLevels repositories st := by
  obtain ⟨others, rfl, hothers⟩ := h
  have hnone : ownedLevels repositories others = [] := by
    rw [ownedLevels, List.filter_eq_nil_iff]
    intro p hp
    simpa using hothers p hp
  rw [ownedLevels, List.filter_append, ← ownedLevels, hnone, List.nil_append, List.filter_cons_of_pos (by simpa using hn), ← ownedLevels]

/-- A section leaves its level, where it is owned. -/
theorem scan_section (hs : ∀ repository ∈ repositories, Signed repository) {configSection : ConfigSection}
    (h : IsSection configSection) (hf : Finished configSection.all) (st : Scanned (Option Level)) :
    ∃ levels, ownedLevels repositories (scanText levelScan st (renderSection repositories configSection)) = levels ++ ownedLevels repositories st ∧
      ((∀ p ∈ levels, p.2 = some .required) ↔ ∀ repository, findOwned repositories configSection.name = some repository →
        Asks repository configSection.lines) := by
  unfold renderSection
  cases hfind : findOwned repositories configSection.name with
  | some repository =>
    obtain ⟨hr, hname⟩ := findOwned_some hfind
    have hn : configSection.name ∈ signedNames repositories := List.mem_map.mpr ⟨repository, hr, hname⟩
    obtain ⟨level, hleaves, hasks⟩ := scan_owned hs hr h hf st
    refine ⟨[(configSection.name, level)], hleaves.owned_eq hn, ?_⟩
    simp [hasks]
  | none =>
    have hno := findOwned_none hfind
    refine ⟨[], ?_, by simp⟩
    simp only
    rw [scanText_section h hf, ownedLevels, List.filter_cons_of_neg (by simpa using hno)]
    rfl

theorem scan_sections (hs : ∀ repository ∈ repositories, Signed repository) {sections : List ConfigSection}
    (h : ∀ configSection ∈ sections, IsSection configSection) (hf : Finished (sections.flatMap ConfigSection.all))
    (st : Scanned (Option Level)) :
    ∃ levels, ownedLevels repositories (scanText levelScan st (sections.flatMap (renderSection repositories))) =
        levels ++ ownedLevels repositories st ∧
      ((∀ p ∈ levels, p.2 = some .required) ↔ ∀ s ∈ sections, ∀ repository,
        findOwned repositories s.name = some repository → Asks repository s.lines) := by
  induction sections generalizing st with
  | nil => exact ⟨[], by rw [List.flatMap_nil, scanText_nil]; rfl, by simp⟩
  | cons configSection rest ih =>
    rw [List.flatMap_cons] at hf ⊢
    have hsection := h configSection List.mem_cons_self
    obtain ⟨-, hclosed⟩ := renderSection_order hs hsection hf.prefix
    obtain ⟨levels, hlevels, hasks⟩ := scan_section hs hsection hf.prefix st
    obtain ⟨others, hothers, hrest⟩ := ih (fun x hx => h x (List.mem_cons_of_mem _ hx)) hf.right
      (scanText levelScan st (renderSection repositories configSection))
    have hsplit : scanText levelScan st (renderSection repositories configSection ++ rest.flatMap (renderSection repositories)) =
        scanText levelScan (scanText levelScan st (renderSection repositories configSection)) (rest.flatMap (renderSection repositories)) := by
      cases rest with
      | nil => rw [List.flatMap_nil, List.append_nil, scanText_nil]
      | cons next rest => exact scanText_closed _ (hclosed (hf.left (by simp [ConfigSection.all]))) _
    refine ⟨others ++ levels, by rw [hsplit, hothers, hlevels, List.append_assoc], ?_⟩
    simp only [List.mem_append, List.forall_mem_cons, ← hasks, ← hrest]
    constructor
    · exact fun hall => ⟨fun p hp => hall p (.inr hp), fun p hp => hall p (.inl hp)⟩
    · rintro ⟨hleft, hright⟩ p (hp | hp)
      · exact hright p hp
      · exact hleft p hp

theorem levelScan_added (repository : Repository) : levelScan.added repository = some .required := by
  rw [Scan.added, levelScan_next, levelScan_start, List.foldl_cons, List.foldl_cons, List.foldl_nil, levelAfter_sigLevelLine,
    levelAfter_other (isDirective_server repository) (.inl rfl)]

/-- The owned sections of the rewritten text, with their levels. -/
theorem rewriteConfig_levels (hs : ∀ repository ∈ repositories, Signed repository) {input output : Bytes}
    (h : rewriteConfig input repositories = .ok output) :
    (∀ p ∈ ownedLevels repositories (scanText levelScan [] output), p.2 = some .required) ↔ ∀ s ∈ (parseSections input).1,
      ∀ repository, findOwned repositories s.name = some repository → Asks repository s.lines := by
  obtain ⟨hsections, hfinished⟩ := parseSections_spec input
  have hm : ∀ repository ∈ missingRepositories repositories input, Signed repository :=
    fun x hx => hs x (List.mem_filter.mp hx).1
  obtain ⟨levels, hlevels, hasks⟩ := scan_sections hs hsections hfinished []
  have hnil : ownedLevels repositories [] = [] := rfl
  rw [hnil, List.append_nil] at hlevels
  rw [rewriteConfig_text h, scanText_missings levelScan_unbroken hm, ownedLevels, List.filter_append, ← ownedLevels, ← ownedLevels,
    scanText_leading, hlevels, ← hasks]
  constructor
  · exact fun hall p hp => hall p (List.mem_append_right _ hp)
  · rintro hall ⟨name, level⟩ hp
    rcases List.mem_append.mp hp with hp | hp
    · obtain ⟨repository, -, heq⟩ := List.mem_map.mp (List.mem_reverse.mp (List.mem_filter.mp hp).1)
      obtain ⟨-, hlevel⟩ := Prod.mk.inj heq
      rw [← hlevel, levelScan_added]
    · exact hall _ hp

end

/-- Every owned section of the rewritten configuration asks for signed packages just
where those of the configuration that was read do once they are rewritten. -/
theorem rewritten_requires_iff (literal : List Char → Option (List Char)) (manifestUrl : String) (tx : Transaction)
    (hsigned : ∀ repository ∈ tx.repositories, validateRepositoryURL literal manifestUrl tx repository = .ok ())
    (input output : Bytes) (h : rewriteConfig input tx.repositories = .ok output) :
    (∀ s ∈ (parseSections output).1, s.name ∈ signedNames tx.repositories → packageLevel s.lines = some .required) ↔
      ∀ s ∈ (parseSections input).1, ∀ repository, findOwned tx.repositories s.name = some repository →
        Asks repository s.lines := by
  rw [← rewriteConfig_levels (fun x hx => validate_signed (hsigned x hx)) h, scanText_sections]
  simp only [ownedLevels, List.mem_filter, List.mem_reverse, List.mem_map, List.contains_eq_mem,
    decide_eq_true_eq]
  constructor
  · rintro hall p ⟨⟨s, hs, rfl⟩, hn⟩
    exact hall s hs hn
  · intro hall s hs hn
    exact hall (s.name, packageLevel s.lines) ⟨⟨s, hs, rfl⟩, hn⟩

/-- An empty section gets its level. -/
theorem rewritten_requires_core : ∃ output, rewriteConfig (utf8 "[core]\n") sampleTransaction.repositories = .ok output ∧
    ∀ s ∈ (parseSections output).1, s.name ∈ signedNames sampleTransaction.repositories →
      packageLevel s.lines = some .required :=
  ⟨_, rfl, (rewritten_requires_iff (fun _ => none) "https://repo.invalid/m" sampleTransaction sample_signed
    (utf8 "[core]\n") _ rfl).mpr (by
      intro s hs repository hr
      have hsections : (parseSections (utf8 "[core]\n")).1.map ConfigSection.lines = [[[]]] := by decide
      have hlines : s.lines ∈ (parseSections (utf8 "[core]\n")).1.map ConfigSection.lines := List.mem_map.mpr ⟨s, hs, rfl⟩
      rw [hsections, List.mem_singleton] at hlines
      rw [Asks, hlines, if_neg (by decide)]
      intro line hline
      obtain rfl : [] = line := Option.some.inj hline
      rfl)⟩

/-- `Required Never` has the word, and ends as `Never`. -/
theorem never_accepted : ∃ (tx : Transaction) (output : Bytes),
    (∀ repository ∈ tx.repositories,
      validateRepositoryURL (fun _ => none) "https://repo.invalid/m" tx repository = .ok ()) ∧
    rewriteConfig (utf8 "[core]\nSigLevel = Required Never\n") tx.repositories = .ok output ∧
    ¬∀ s ∈ (parseSections output).1, s.name ∈ signedNames tx.repositories → packageLevel s.lines = some .required :=
  ⟨sampleTransaction, _, sample_signed, rfl, by decide⟩

end Omapkg.Client
