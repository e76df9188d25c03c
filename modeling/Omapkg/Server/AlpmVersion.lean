import Mathlib.Data.List.SplitBy
import Mathlib.Data.List.TakeDrop
import Omapkg.Lib.Decimal
import Omapkg.Server.Arch
/-!
# Versions as pacman compares them

`compareVersionText` against `rpmvercmp` of libalpm, which also looks at the
characters between the segments: a longer run of them is newer, whatever follows.
-/

namespace Omapkg.Server.Arch

open Decimal

/-! ## Scanning -/

/-- A segment, and how many characters separate it from the one before. -/
structure Run where
  separators : Nat
  segment : Segment

/-- The segments of a version, and how many characters follow the last. -/
structure Scanned where
  runs : List Run
  trailing : Nat

def Scanned.digit (c : Char) (s : Scanned) : Scanned :=
  match s.runs with
  | ⟨0, .digits ds⟩ :: rest => { s with runs := ⟨0, .digits (c :: ds)⟩ :: rest }
  | runs => { s with runs := ⟨0, .digits [c]⟩ :: runs }

def Scanned.letter (c : Char) (s : Scanned) : Scanned :=
  match s.runs with
  | ⟨0, .letters cs⟩ :: rest => { s with runs := ⟨0, .letters (c :: cs)⟩ :: rest }
  | runs => { s with runs := ⟨0, .letters [c]⟩ :: runs }

def Scanned.separator (s : Scanned) : Scanned :=
  match s.runs with
  | [] => { s with trailing := s.trailing + 1 }
  | ⟨n, segment⟩ :: rest => { s with runs := ⟨n + 1, segment⟩ :: rest }

def scan : List Char → Scanned
  | [] => ⟨[], 0⟩
  | c :: cs => if c.isDigit then (scan cs).digit c else if c.isAlpha then (scan cs).letter c else (scan cs).separator

/-! ## `rpmvercmp` -/

/-- All leading zeros go, those of `0` too. -/
def dropZeros (digits : List Char) : List Char := digits.dropWhile (· = '0')

/-- Numbers are newer than letters; more digits are newer. -/
def compareSegment : Segment → Segment → Ordering
  | .digits _, .letters _ => .gt
  | .letters _, .digits _ => .lt
  | .digits a, .digits b => (compare (dropZeros a).length (dropZeros b).length).then (compareChars (dropZeros a) (dropZeros b))
  | .letters a, .letters b => compareChars a b

/-- What is left when the other version has come to its end. -/
def compareEnd (ended : Nat) (next : Run) : Ordering :=
  if ended = 0 ∧ next.separators ≠ 0 then .lt
  else
    match next.segment with
    | .digits _ => .lt
    | .letters _ => .gt

def compareRuns : List Run → Nat → List Run → Nat → Ordering
  | [], t, [], u => if t = 0 ∧ u ≠ 0 then .lt else if t ≠ 0 ∧ u = 0 then .gt else .eq
  | [], t, b :: _, _ => compareEnd t b
  | a :: _, _, [], u => (compareEnd u a).swap
  | a :: as, t, b :: bs, u =>
    (compare a.separators b.separators).then ((compareSegment a.segment b.segment).then (compareRuns as t bs u))

def rpmvercmp (left right : List Char) : Ordering :=
  compareRuns (scan left).runs (scan left).trailing (scan right).runs (scan right).trailing

/-- `parseEVR`: the epoch, the version and the release, which is what follows the last hyphen. -/
def parseEVR (evr : List Char) : List Char × List Char × Option (List Char) :=
  let (epoch, rest) :=
    match evr.span Char.isDigit with
    | (epoch, ':' :: rest) => (if epoch = [] then ['0'] else epoch, rest)
    | _ => (['0'], evr)
  match splitRelease rest with
  | some (version, release) => (epoch, version, some release)
  | none => (epoch, rest, none)

/-- Releases count only where both versions have one. -/
def compareReleases (left right : List Char × Option (List Char)) : Ordering :=
  (rpmvercmp left.1 right.1).then
    (match left.2, right.2 with
      | some r, some r' => rpmvercmp r r'
      | _, _ => .eq)

/-- `alpm_pkg_vercmp`. -/
def vercmp (left right : List Char) : Ordering :=
  (rpmvercmp (parseEVR left).1 (parseEVR right).1).then (compareReleases (parseEVR left).2 (parseEVR right).2)

/-! ## Segments -/

/-- Whether two characters are of one kind. -/
def alike (a b : Char) : Bool := a.isDigit = b.isDigit && a.isAlpha = b.isAlpha

def segmentOf (run : List Char) : Option Segment :=
  if run.all (·.isDigit) then some (.digits run) else if run.all (·.isAlpha) then some (.letters run) else none

theorem segments_eq (s : List Char) : segments s = (s.splitBy alike).filterMap segmentOf := rfl

theorem isAlpha_of_isDigit {c : Char} (h : c.isDigit = true) : c.isAlpha = false := by
  simp only [Char.isDigit, Bool.and_eq_true, decide_eq_true_eq, ge_iff_le, UInt32.le_iff_toNat_le] at h
  have h9 : c.toNat ≤ 57 := h.2
  have hupper : ¬65 ≤ c.toNat := by omega
  have hlower : ¬97 ≤ c.toNat := by omega
  have halpha : c.isAlpha = (decide (65 ≤ c.val ∧ c.val ≤ 90) || decide (97 ≤ c.val) && decide (c.val ≤ 122)) := rfl
  simp only [halpha, Bool.or_eq_false_iff, Bool.and_eq_false_iff, decide_eq_false_iff_not, UInt32.le_iff_toNat_le]
  exact ⟨fun h => hupper h.1, .inl hlower⟩

theorem splitBy_cons_cons {α : Type} (r : α → α → Bool) {a b : α} {l g : List α} {gs : List (List α)}
    (h : (b :: l).splitBy r = (b :: g) :: gs) :
    (a :: b :: l).splitBy r = if r a b then (a :: b :: g) :: gs else [a] :: (b :: g) :: gs := by
  obtain ⟨hflat, hnil, hchain, hadj⟩ := List.splitBy_eq_iff.mp h
  split
  · next hab =>
    refine List.splitBy_eq_iff.mpr ⟨by rw [hflat]; rfl, by simpa using hnil, ?_, ?_⟩
    · intro m hm
      rcases List.mem_cons.mp hm with rfl | hm
      · exact .cons_cons hab (hchain _ List.mem_cons_self)
      · exact hchain m (List.mem_cons_of_mem _ hm)
    · cases gs with
      | nil => simp
      | cons g' gs =>
        rw [List.isChain_cons_cons] at hadj ⊢
        refine ⟨?_, hadj.2⟩
        obtain ⟨ha, hb, hr⟩ := hadj.1
        exact ⟨by simp, hb, by rwa [List.getLast_cons (List.cons_ne_nil _ _)]⟩
  · next hab =>
    have hone : [a].splitBy r = [[a]] := List.splitBy_eq_iff.mpr (by simp)
    rw [← h, ← List.singleton_append, List.splitBy_append (by simpa using hab), hone]
    rfl

theorem Scanned.digit_join {s : Scanned} {ds : List Char} {rest : List Run} (h : s.runs = ⟨0, .digits ds⟩ :: rest) (c : Char) :
    (s.digit c).runs = ⟨0, .digits (c :: ds)⟩ :: rest := by
  simp [Scanned.digit, h]

theorem Scanned.digit_new {s : Scanned} (h : ∀ ds rest, s.runs ≠ ⟨0, .digits ds⟩ :: rest) (c : Char) :
    (s.digit c).runs = ⟨0, .digits [c]⟩ :: s.runs := by
  unfold Scanned.digit
  split
  · next heq => exact absurd heq (h _ _)
  · rfl

theorem Scanned.letter_join {s : Scanned} {cs : List Char} {rest : List Run} (h : s.runs = ⟨0, .letters cs⟩ :: rest)
    (c : Char) : (s.letter c).runs = ⟨0, .letters (c :: cs)⟩ :: rest := by
  simp [Scanned.letter, h]

theorem Scanned.letter_new {s : Scanned} (h : ∀ cs rest, s.runs ≠ ⟨0, .letters cs⟩ :: rest) (c : Char) :
    (s.letter c).runs = ⟨0, .letters [c]⟩ :: s.runs := by
  unfold Scanned.letter
  split
  · next heq => exact absurd heq (h _ _)
  · rfl

/-- What a scan makes of the segments of a version that starts with `c`. -/
structure Cut (c : Char) (cs g : List Char) (gs : List (List Char)) : Prop where
  splits : (c :: cs).splitBy alike = (c :: g) :: gs
  kind : ∀ d ∈ g, d.isDigit = c.isDigit ∧ d.isAlpha = c.isAlpha
  digit : c.isDigit = true → ∃ rest, (scan (c :: cs)).runs = ⟨0, .digits (c :: g)⟩ :: rest ∧
    rest.map (·.segment) = gs.filterMap segmentOf
  letter : c.isDigit = false → c.isAlpha = true → ∃ rest, (scan (c :: cs)).runs = ⟨0, .letters (c :: g)⟩ :: rest ∧
    rest.map (·.segment) = gs.filterMap segmentOf
  separator : c.isDigit = false → c.isAlpha = false → (scan (c :: cs)).runs.map (·.segment) = gs.filterMap segmentOf ∧
    ∀ run ∈ (scan (c :: cs)).runs.head?, run.separators ≠ 0

theorem Cut.segmentOf {c : Char} {cs g : List Char} {gs : List (List Char)} (h : Cut c cs g gs) :
    segmentOf (c :: g) = if c.isDigit then some (.digits (c :: g)) else if c.isAlpha then some (.letters (c :: g)) else none := by
  have hdigit : (c :: g).all (·.isDigit) = c.isDigit := by
    cases hc : c.isDigit with
    | true => simpa [hc] using fun d hd => (h.kind d hd).1.trans hc
    | false => simp [hc]
  have halpha : (c :: g).all (·.isAlpha) = c.isAlpha := by
    cases hc : c.isAlpha with
    | true => simpa [hc] using fun d hd => (h.kind d hd).2.trans hc
    | false => simp [hc]
  simp only [Arch.segmentOf, hdigit, halpha]

/-- A scan finds the segments that the server compares. -/
theorem Cut.segments {c : Char} {cs g : List Char} {gs : List (List Char)} (h : Cut c cs g gs) :
    (scan (c :: cs)).runs.map (·.segment) = segments (c :: cs) := by
  rw [segments_eq, h.splits]
  cases hd : c.isDigit with
  | true =>
    obtain ⟨rest, hruns, hrest⟩ := h.digit hd
    rw [List.filterMap_cons_some (by rw [h.segmentOf, if_pos hd]), hruns, List.map_cons, hrest]
  | false =>
    cases ha : c.isAlpha with
    | true =>
      obtain ⟨rest, hruns, hrest⟩ := h.letter hd ha
      rw [List.filterMap_cons_some (by rw [h.segmentOf, hd, if_neg (by decide), if_pos ha]), hruns, List.map_cons, hrest]
    | false =>
      rw [List.filterMap_cons_none (by rw [h.segmentOf, hd, ha]; rfl)]
      exact (h.separator hd ha).1

theorem Cut.head_ne_digits {c : Char} {cs g ds : List Char} {gs : List (List Char)} {rest : List Run} (h : Cut c cs g gs)
    (hc : c.isDigit = false) (hruns : (scan (c :: cs)).runs = ⟨0, .digits ds⟩ :: rest) : False := by
  cases ha : c.isAlpha with
  | true =>
    obtain ⟨rest', hruns', -⟩ := h.letter hc ha
    rw [hruns'] at hruns
    cases hruns
  | false => exact (h.separator hc ha).2 _ (by rw [hruns]; rfl) rfl

theorem Cut.head_ne_letters {c : Char} {cs g ls : List Char} {gs : List (List Char)} {rest : List Run} (h : Cut c cs g gs)
    (hc : c.isAlpha = false) (hruns : (scan (c :: cs)).runs = ⟨0, .letters ls⟩ :: rest) : False := by
  cases hd : c.isDigit with
  | true =>
    obtain ⟨rest', hruns', -⟩ := h.digit hd
    rw [hruns'] at hruns
    cases hruns
  | false => exact (h.separator hd hc).2 _ (by rw [hruns]; rfl) rfl

theorem scan_cut (c : Char) (cs : List Char) : ∃ g gs, Cut c cs g gs := by
  induction cs generalizing c with
  | nil =>
    refine ⟨[], [], List.splitBy_eq_iff.mpr (by simp), by simp, fun hd => ?_, fun hd ha => ?_, fun hd ha => ?_⟩
    · exact ⟨[], by simp [scan, hd, Scanned.digit], rfl⟩
    · exact ⟨[], by simp [scan, hd, ha, Scanned.letter], rfl⟩
    · simp [scan, hd, ha, Scanned.separator]
  | cons d cs ih =>
    obtain ⟨g, gs, h⟩ := ih d
    have hsegments := h.segments
    rw [segments_eq, h.splits] at hsegments
    have hsplit := splitBy_cons_cons alike (a := c) h.splits
    by_cases hsame : alike c d = true
    · -- `c` joins the run
      rw [if_pos hsame] at hsplit
      have hkind : c.isDigit = d.isDigit ∧ c.isAlpha = d.isAlpha := by simpa [alike] using hsame
      refine ⟨d :: g, gs, hsplit, ?_, fun hd => ?_, fun hd ha => ?_, fun hd ha => ?_⟩
      · intro x hx
        rcases List.mem_cons.mp hx with rfl | hx
        · exact ⟨hkind.1.symm, hkind.2.symm⟩
        · exact ⟨(h.kind x hx).1.trans hkind.1.symm, (h.kind x hx).2.trans hkind.2.symm⟩
      · obtain ⟨rest, hruns, hrest⟩ := h.digit (hkind.1 ▸ hd)
        exact ⟨rest, by rw [scan, if_pos hd, Scanned.digit_join hruns], hrest⟩
      · obtain ⟨rest, hruns, hrest⟩ := h.letter (hkind.1 ▸ hd) (hkind.2 ▸ ha)
        exact ⟨rest, by rw [scan, hd, if_neg (by decide), if_pos ha, Scanned.letter_join hruns], hrest⟩
      · obtain ⟨hruns, hhead⟩ := h.separator (hkind.1 ▸ hd) (hkind.2 ▸ ha)
        rw [scan, hd, if_neg (by decide), ha, if_neg (by decide), Scanned.separator]
        cases hs : (scan (d :: cs)).runs with
        | nil =>
          rw [hs] at hruns
          exact ⟨hruns, by simp⟩
        | cons run rest =>
          rw [hs] at hruns
          exact ⟨hruns, by simp⟩
    · -- `c` stands alone
      rw [if_neg hsame] at hsplit
      have hne : ¬(c.isDigit = d.isDigit ∧ c.isAlpha = d.isAlpha) := fun hk => hsame (by simpa [alike] using hk)
      refine ⟨[], (d :: g) :: gs, hsplit, by simp, fun hd => ?_, fun hd ha => ?_, fun hd ha => ?_⟩
      · refine ⟨(scan (d :: cs)).runs, ?_, hsegments⟩
        rw [scan, if_pos hd, Scanned.digit_new fun ds rest hruns => ?_]
        cases hdd : d.isDigit with
        | true => exact hne ⟨hd.trans hdd.symm, (isAlpha_of_isDigit hd).trans (isAlpha_of_isDigit hdd).symm⟩
        | false => exact h.head_ne_digits hdd hruns
      · refine ⟨(scan (d :: cs)).runs, ?_, hsegments⟩
        rw [scan, hd, if_neg (by decide), if_pos ha, Scanned.letter_new fun ls rest hruns => ?_]
        cases hda : d.isAlpha with
        | true =>
          cases hdd : d.isDigit with
          | true => exact absurd ((isAlpha_of_isDigit hdd).symm.trans hda) (by decide)
          | false => exact hne ⟨hd.trans hdd.symm, ha.trans hda.symm⟩
        | false => exact h.head_ne_letters hda hruns
      · rw [scan, hd, if_neg (by decide), ha, if_neg (by decide), Scanned.separator]
        cases hs : (scan (d :: cs)).runs with
        | nil =>
          rw [hs] at hsegments
          exact ⟨hsegments, by simp⟩
        | cons run rest =>
          rw [hs] at hsegments
          exact ⟨hsegments, by simp⟩

theorem scan_segments (s : List Char) : (scan s).runs.map (·.segment) = segments s := by
  cases s with
  | nil => rfl
  | cons c cs =>
    obtain ⟨g, gs, h⟩ := scan_cut c cs
    exact h.segments

/-! ## The order of segments -/

/-- Whether two segments are one number, or the same letters. -/
def Same : Segment → Segment → Prop
  | .digits a, .digits b => value a = value b
  | .letters a, .letters b => a = b
  | _, _ => False

/-- Whether a segment is older than another. -/
def Less : Segment → Segment → Prop
  | .letters _, .digits _ => True
  | .digits a, .digits b => value a < value b
  | .letters a, .letters b => a < b
  | .digits _, .letters _ => False

/-- Whether segments are older than others: by the first that differ, or, where one
version has come to its end, by whether a number or letters are left. -/
inductive Older : List Segment → List Segment → Prop
  | less {a b : Segment} {left right : List Segment} : Less a b → Older (a :: left) (b :: right)
  | number {b : List Char} {right : List Segment} : Older [] (.digits b :: right)
  | letters {a : List Char} {left : List Segment} : Older (.letters a :: left) []
  | same {a b : Segment} {left right : List Segment} : Same a b → Older left right → Older (a :: left) (b :: right)

/-- Segments as a scan finds them: a number has digits. -/
def Segment.Scans : Segment → Prop
  | .digits ds => AllDigits ds ∧ ds ≠ []
  | .letters _ => True

/-- Where more digits are the larger number, lengths and then texts compare as numbers do. -/
theorem compare_shortlex {xs ys : List Char} (hx : AllDigits xs) (hy : AllDigits ys)
    (hxy : xs.length < ys.length → value xs < value ys) (hyx : ys.length < xs.length → value ys < value xs) :
    (compare xs.length ys.length).then (compareChars xs ys) = compare (value xs) (value ys) := by
  rcases Nat.lt_trichotomy xs.length ys.length with hlt | heq | hgt
  · rw [Nat.compare_eq_lt.mpr hlt, Nat.compare_eq_lt.mpr (hxy hlt)]
    rfl
  · rw [Nat.compare_eq_eq.mpr heq]
    change compareChars xs ys = _
    unfold compareChars
    by_cases hsame : xs = ys
    · rw [if_pos hsame, hsame, Nat.compare_eq_eq.mpr rfl]
    · rw [if_neg hsame]
      by_cases hlt : xs < ys
      · rw [if_pos hlt, Nat.compare_eq_lt.mpr ((lt_iff hx hy heq).mp hlt)]
      · have hle : value ys ≤ value xs := Nat.not_lt.mp fun h => hlt ((lt_iff hx hy heq).mpr h)
        have hne : value ys ≠ value xs := fun h => hsame (value_inj hx hy heq h.symm)
        rw [if_neg hlt, Nat.compare_eq_gt.mpr (Nat.lt_of_le_of_ne hle hne)]
  · rw [Nat.compare_eq_gt.mpr hgt, Nat.compare_eq_gt.mpr (hyx hgt)]
    rfl

theorem value_dropZeros (ds : List Char) : value (dropZeros ds) = value ds := by
  unfold dropZeros
  induction ds with
  | nil => rfl
  | cons c ds ih =>
    rw [List.dropWhile_cons]
    split
    · next hc =>
      obtain rfl : c = '0' := by simpa using hc
      rw [ih, value_cons]
      simp [digitValue]
    · rfl

/-- What is left does not go. -/
theorem of_dropWhile {p : Char → Bool} {l cs : List Char} {c : Char} (h : l.dropWhile p = c :: cs) : p c = false := by
  induction l with
  | nil => cases h
  | cons x l ih =>
    rw [List.dropWhile_cons] at h
    split at h
    · exact ih h
    · next hx =>
      cases h
      simpa using hx

theorem dropZeros_numeral {ds : List Char} (h : AllDigits ds) (hne : dropZeros ds ≠ []) : Numeral (dropZeros ds) := by
  refine ⟨fun c hc => h c ((List.dropWhile_sublist _).subset hc), hne, fun hhead => ?_⟩
  obtain ⟨c, cs, hcs⟩ := List.exists_cons_of_ne_nil hne
  have hnot := of_dropWhile hcs
  rw [hcs] at hhead
  rw [Option.some.inj hhead] at hnot
  cases hnot

theorem dropZeros_lt {xs ys : List Char} (hx : AllDigits xs) (hy : AllDigits ys)
    (hlen : (dropZeros xs).length < (dropZeros ys).length) : value (dropZeros xs) < value (dropZeros ys) :=
  value_lt_of_shorter (fun c hc => hx c ((List.dropWhile_sublist _).subset hc))
    (dropZeros_numeral hy (List.ne_nil_of_length_pos (Nat.zero_lt_of_lt hlen))) hlen

theorem allDigits_dropZeros {ds : List Char} (h : AllDigits ds) : AllDigits (dropZeros ds) :=
  fun c hc => h c ((List.dropWhile_sublist _).subset hc)

theorem compareSegment_digits {a b : List Char} (ha : AllDigits a) (hb : AllDigits b) :
    compareSegment (.digits a) (.digits b) = compare (value a) (value b) := by
  rw [compareSegment, compare_shortlex (allDigits_dropZeros ha) (allDigits_dropZeros hb) (dropZeros_lt ha hb) (dropZeros_lt hb ha),
    value_dropZeros, value_dropZeros]

/-- The server keeps a zero where nothing else is left. -/
theorem stripZeros_eq {ds : List Char} (hne : ds ≠ []) (h : AllDigits ds) :
    stripZeros ds = if dropZeros ds = [] then ['0'] else dropZeros ds := by
  unfold stripZeros dropZeros
  split
  · next heq =>
    rw [if_pos heq]
    obtain ⟨c, cs, rfl⟩ := List.exists_cons_of_ne_nil hne
    have hc := List.dropWhile_eq_nil_iff.mp heq c List.mem_cons_self
    obtain rfl : c = '0' := by simpa using hc
    rfl
  · next hr => rw [if_neg hr]

theorem value_stripZeros {ds : List Char} (hne : ds ≠ []) (h : AllDigits ds) : value (stripZeros ds) = value ds := by
  rw [stripZeros_eq hne h]
  split
  · next heq =>
    rw [← value_dropZeros ds, heq]
    rfl
  · exact value_dropZeros ds

theorem allDigits_stripZeros {ds : List Char} (hne : ds ≠ []) (h : AllDigits ds) : AllDigits (stripZeros ds) := by
  rw [stripZeros_eq hne h]
  split
  · intro c hc
    rw [List.mem_singleton.mp hc]
    rfl
  · exact allDigits_dropZeros h

theorem stripZeros_lt {xs ys : List Char} (hnx : xs ≠ []) (hny : ys ≠ []) (hx : AllDigits xs) (hy : AllDigits ys)
    (hlen : (stripZeros xs).length < (stripZeros ys).length) : value (stripZeros xs) < value (stripZeros ys) := by
  refine value_lt_of_shorter (allDigits_stripZeros hnx hx) ?_ hlen
  have hpos : 0 < (stripZeros xs).length := by
    rw [stripZeros_eq hnx hx]
    split
    · decide
    · next hne => exact List.length_pos_iff.mpr hne
  rw [stripZeros_eq hny hy] at hlen ⊢
  split at hlen
  · rw [List.length_singleton] at hlen
    omega
  · next hne =>
    rw [if_neg hne]
    exact dropZeros_numeral hy hne

theorem compareStripped {a b : List Char} (ha : AllDigits a ∧ a ≠ []) (hb : AllDigits b ∧ b ≠ []) :
    (compare (stripZeros a).length (stripZeros b).length).then (compareChars (stripZeros a) (stripZeros b)) =
      compare (value a) (value b) := by
  rw [compare_shortlex (allDigits_stripZeros ha.2 ha.1) (allDigits_stripZeros hb.2 hb.1)
    (stripZeros_lt ha.2 hb.2 ha.1 hb.1) (stripZeros_lt hb.2 ha.2 hb.1 ha.1), value_stripZeros ha.2 ha.1,
    value_stripZeros hb.2 hb.1]

theorem compareChars_lt {a b : List Char} : compareChars a b = .lt ↔ a < b := by
  unfold compareChars
  by_cases heq : a = b
  · simp [heq, List.lt_irrefl]
  · by_cases hlt : a < b <;> simp [heq, hlt]

theorem compareChars_eq {a b : List Char} : compareChars a b = .eq ↔ a = b := by
  unfold compareChars
  by_cases heq : a = b
  · simp [heq]
  · by_cases hlt : a < b <;> simp [heq, hlt]

theorem compareSegment_lt {a b : Segment} (ha : a.Scans) (hb : b.Scans) : compareSegment a b = .lt ↔ Less a b := by
  cases a <;> cases b
  · rw [compareSegment_digits ha.1 hb.1]
    exact Nat.compare_eq_lt
  · simp [compareSegment, Less]
  · simp [compareSegment, Less]
  · exact compareChars_lt

theorem compareSegment_eq {a b : Segment} (ha : a.Scans) (hb : b.Scans) : compareSegment a b = .eq ↔ Same a b := by
  cases a <;> cases b
  · rw [compareSegment_digits ha.1 hb.1]
    exact Nat.compare_eq_eq
  · simp [compareSegment, Same]
  · simp [compareSegment, Same]
  · exact compareChars_eq

/-- The server compares one segment with another as libalpm does. -/
theorem compareSegments_cons {a b : Segment} (ha : a.Scans) (hb : b.Scans) (left right : List Segment) :
    compareSegments (a :: left) (b :: right) = (compareSegment a b).then (compareSegments left right) := by
  cases a <;> cases b
  · rw [compareSegments, compareStripped ha hb, compareSegment_digits ha.1 hb.1]
  · rfl
  · rfl
  · rfl

theorem less_asymm {a b : Segment} (h : Less a b) : ¬Less b a := by
  cases a <;> cases b
  · exact Nat.lt_asymm h
  · exact fun _ => h
  · exact id
  · exact List.lt_asymm h

theorem same_symm {a b : Segment} (h : Same a b) : Same b a := by
  cases a <;> cases b
  · exact Eq.symm h
  · exact h
  · exact h
  · exact Eq.symm h

theorem not_less_of_same {a b : Segment} (h : Same a b) : ¬Less a b := by
  cases a <;> cases b
  · exact Nat.not_lt.mpr (Nat.le_of_eq (Eq.symm h))
  · exact id
  · exact fun _ => h
  · obtain rfl := h
    exact List.lt_irrefl _

theorem compareSegment_gt {a b : Segment} (ha : a.Scans) (hb : b.Scans) : compareSegment a b = .gt ↔ Less b a := by
  have hlt := compareSegment_lt ha hb
  have heq := compareSegment_eq ha hb
  constructor
  · intro h
    rw [h] at hlt heq
    have hne : ¬Less a b := fun h' => by cases hlt.mpr h'
    have hns : ¬Same a b := fun h' => by cases heq.mpr h'
    cases a <;> cases b
    · exact Nat.lt_of_le_of_ne (Nat.not_lt.mp hne) (Ne.symm hns)
    · trivial
    · exact absurd trivial hne
    · exact by_contra fun h' => hns (List.le_antisymm (List.not_lt.mp h') (List.not_lt.mp hne))
  · intro h
    cases hc : compareSegment a b with
    | lt => exact absurd h (less_asymm (hlt.mp hc))
    | eq => exact absurd h (not_less_of_same (same_symm (heq.mp hc)))
    | gt => rfl

def AllScans (left : List Segment) : Prop := ∀ a ∈ left, a.Scans

theorem compareSegments_lt {left right : List Segment} (hl : AllScans left) (hr : AllScans right) :
    compareSegments left right = .lt ↔ Older left right := by
  induction left generalizing right with
  | nil =>
    cases right with
    | nil => exact iff_of_false (by simp [compareSegments]) nofun
    | cons b right =>
      cases b with
      | digits ds => exact iff_of_true rfl .number
      | letters cs => exact iff_of_false (by simp [compareSegments]) nofun
  | cons a left ih =>
    obtain ⟨ha, hl⟩ := List.forall_mem_cons.mp hl
    cases right with
    | nil =>
      cases a with
      | digits ds => exact iff_of_false (by simp [compareSegments]) nofun
      | letters cs => exact iff_of_true rfl .letters
    | cons b right =>
      obtain ⟨hb, hr⟩ := List.forall_mem_cons.mp hr
      rw [compareSegments_cons ha hb]
      have hcons : Older (a :: left) (b :: right) ↔ Less a b ∨ (Same a b ∧ Older left right) := by
        constructor
        · rintro (h | - | - | ⟨hs, ho⟩)
          · exact .inl h
          · exact .inr ⟨hs, ho⟩
        · rintro (h | ⟨hs, ho⟩)
          · exact .less h
          · exact .same hs ho
      rw [hcons, ← compareSegment_lt ha hb, ← compareSegment_eq ha hb, ← ih hl hr]
      cases compareSegment a b <;> simp [Ordering.then]

theorem compareSegments_swap {left right : List Segment} (hl : AllScans left) (hr : AllScans right) :
    (compareSegments left right).swap = compareSegments right left := by
  induction left generalizing right with
  | nil =>
    cases right with
    | nil => rfl
    | cons b right => cases b <;> rfl
  | cons a left ih =>
    obtain ⟨ha, hl⟩ := List.forall_mem_cons.mp hl
    cases right with
    | nil => cases a <;> rfl
    | cons b right =>
      obtain ⟨hb, hr⟩ := List.forall_mem_cons.mp hr
      rw [compareSegments_cons ha hb, compareSegments_cons hb ha, Ordering.swap_then, ih hl hr]
      congr 1
      cases hc : compareSegment a b with
      | lt => exact ((compareSegment_gt hb ha).mpr ((compareSegment_lt ha hb).mp hc)).symm
      | eq => exact ((compareSegment_eq hb ha).mpr (same_symm ((compareSegment_eq ha hb).mp hc))).symm
      | gt => exact ((compareSegment_lt hb ha).mpr ((compareSegment_gt ha hb).mp hc)).symm

theorem compareSegments_gt {left right : List Segment} (hl : AllScans left) (hr : AllScans right) :
    compareSegments left right = .gt ↔ Older right left := by
  rw [← compareSegments_lt hr hl, ← compareSegments_swap hl hr]
  cases compareSegments left right <;> simp [Ordering.swap]

/-! ## Where they agree -/

def segmentsOf (runs : List Run) : List Segment := runs.map (·.segment)

/-- Whether a version that goes on where the other has ended does so with a number, or
without a separator that only it has. -/
def EndsAlike (ended : Nat) (next : Run) : Prop :=
  ended = 0 → next.separators ≠ 0 → ∃ ds, next.segment = .digits ds

/-- Whether what separates the segments makes no difference: as many characters up to
the first segments that differ; or, where one version has more, it is the newer one by
the segments from there on; and at the end, both have some left or neither. -/
def Agreeing : List Run → Nat → List Run → Nat → Prop
  | [], t, [], u => t = 0 ↔ u = 0
  | [], t, b :: _, _ => EndsAlike t b
  | a :: _, _, [], u => EndsAlike u a
  | a :: as, t, b :: bs, u =>
    if a.separators < b.separators then Older (segmentsOf (a :: as)) (segmentsOf (b :: bs))
    else if b.separators < a.separators then Older (segmentsOf (b :: bs)) (segmentsOf (a :: as))
    else Same a.segment b.segment → Agreeing as t bs u

/-- What is left after the end of a version is compared alike. -/
theorem compareEnd_eq_iff (ended : Nat) (next : Run) (rest : List Run) :
    compareSegments [] (segmentsOf (next :: rest)) = compareEnd ended next ↔ EndsAlike ended next := by
  obtain ⟨n, segment⟩ := next
  unfold compareEnd EndsAlike
  cases segment with
  | digits ds => exact iff_of_true (by simp [segmentsOf, compareSegments]) fun _ _ => ⟨ds, rfl⟩
  | letters cs => simp [segmentsOf, compareSegments]

theorem compareRuns_eq_iff (left : List Run) (t : Nat) (right : List Run) (u : Nat) (hl : AllScans (segmentsOf left))
    (hr : AllScans (segmentsOf right)) :
    compareSegments (segmentsOf left) (segmentsOf right) = compareRuns left t right u ↔ Agreeing left t right u := by
  induction left generalizing right with
  | nil =>
    cases right with
    | nil =>
      simp only [segmentsOf, List.map_nil, compareSegments, compareRuns, Agreeing]
      by_cases ht : t = 0 <;> by_cases hu : u = 0 <;> simp [ht, hu]
    | cons b right => exact compareEnd_eq_iff t b right
  | cons a left ih =>
    cases right with
    | nil =>
      rw [Agreeing, ← compareEnd_eq_iff u a left, compareRuns, ← compareSegments_swap hr hl]
      exact Ordering.swap_inj
    | cons b right =>
      obtain ⟨ha, hl'⟩ := List.forall_mem_cons.mp hl
      obtain ⟨hb, hr'⟩ := List.forall_mem_cons.mp hr
      rw [compareRuns, Agreeing]
      rcases Nat.lt_trichotomy a.separators b.separators with hlt | heq | hgt
      · rw [Nat.compare_eq_lt.mpr hlt, if_pos hlt]
        exact compareSegments_lt hl hr
      · rw [Nat.compare_eq_eq.mpr heq, if_neg (Nat.not_lt.mpr (Nat.le_of_eq heq.symm)),
          if_neg (Nat.not_lt.mpr (Nat.le_of_eq heq)), ← compareSegment_eq ha hb, ← ih right hl' hr']
        change compareSegments (a.segment :: segmentsOf left) (b.segment :: segmentsOf right) = _ ↔ _
        rw [compareSegments_cons ha hb]
        cases compareSegment a.segment b.segment <;> simp [Ordering.then]
      · rw [Nat.compare_eq_gt.mpr hgt, if_neg (Nat.lt_asymm hgt), if_pos hgt]
        exact compareSegments_gt hl hr

theorem allScans_segments (s : List Char) : AllScans (segments s) := by
  intro a ha
  rw [segments_eq, List.mem_filterMap] at ha
  obtain ⟨run, hrun, hof⟩ := ha
  unfold segmentOf at hof
  split_ifs at hof with hdigits
  · obtain rfl := Option.some.inj hof
    exact ⟨List.all_eq_true.mp hdigits, List.ne_nil_of_mem_splitBy hrun⟩
  · obtain rfl := Option.some.inj hof
    trivial

/-- Two texts agree when their scans do. -/
def TextsAgree (left right : List Char) : Prop :=
  Agreeing (scan left).runs (scan left).trailing (scan right).runs (scan right).trailing

theorem compareVersionText_eq_iff (left right : List Char) :
    compareVersionText left right = rpmvercmp left right ↔ TextsAgree left right := by
  have hl := allScans_segments left
  have hr := allScans_segments right
  rw [← scan_segments] at hl hr
  unfold compareVersionText rpmvercmp
  rw [← scan_segments, ← scan_segments]
  exact compareRuns_eq_iff _ _ _ _ hl hr

/-! ## Whole versions -/

theorem Scanned.digit_trailing (c : Char) (s : Scanned) : (s.digit c).trailing = s.trailing := by
  unfold Scanned.digit
  split <;> rfl

theorem scan_digits {ds rest : List Char} (h : AllDigits ds) (hne : ds ≠ [])
    (hrest : ∀ es rs, (scan rest).runs ≠ ⟨0, .digits es⟩ :: rs) :
    scan (ds ++ rest) = ⟨⟨0, .digits ds⟩ :: (scan rest).runs, (scan rest).trailing⟩ := by
  induction ds with
  | nil => exact absurd rfl hne
  | cons c ds ih =>
    obtain ⟨hc, hds⟩ := List.forall_mem_cons.mp h
    rw [List.cons_append, scan, if_pos hc]
    by_cases hlast : ds = []
    · subst hlast
      rw [List.nil_append, ← Scanned.digit_new hrest c, ← Scanned.digit_trailing c (scan rest)]
    · rw [ih hds hlast]
      rfl

theorem scan_only_digits {ds : List Char} (h : AllDigits ds) (hne : ds ≠ []) : scan ds = ⟨[⟨0, .digits ds⟩], 0⟩ := by
  have hnone : ∀ es rs, (scan []).runs ≠ ⟨0, .digits es⟩ :: rs := nofun
  have hscan := scan_digits h hne hnone
  rwa [List.append_nil] at hscan

/-- A release of the server is one number, or two with a dot between them. -/
theorem scan_release {s : List Char} (h : isRelease s = true) : ∃ a, scan s = ⟨[⟨0, .digits a⟩], 0⟩ ∨
    ∃ b, scan s = ⟨[⟨0, .digits a⟩, ⟨1, .digits b⟩], 0⟩ := by
  have hsplit : s.takeWhile (· ≠ '.') ++ s.dropWhile (· ≠ '.') = s := List.takeWhile_append_dropWhile
  unfold isRelease at h
  rw [List.span_eq_takeWhile_dropWhile] at h
  have hof {ds : List Char} (hds : isDigits ds = true) : AllDigits ds ∧ ds ≠ [] := by
    simp only [isDigits, Bool.and_eq_true, decide_eq_true_eq, List.all_eq_true] at hds
    exact ⟨hds.2, hds.1⟩
  split at h
  · next a heq =>
    obtain ⟨ha, hrest⟩ := Prod.mk.inj heq
    obtain ⟨hdigits, hne⟩ := hof h
    rw [hrest, List.append_nil] at hsplit
    rw [← hsplit, ha]
    exact ⟨a, .inl (scan_only_digits hdigits hne)⟩
  · next a d b heq =>
    obtain ⟨ha, hrest⟩ := Prod.mk.inj heq
    rw [Bool.and_eq_true] at h
    obtain ⟨hda, hna⟩ := hof h.1
    obtain ⟨hdb, hnb⟩ := hof h.2
    have hd : d = '.' := by simpa using of_dropWhile hrest
    have hafter : scan (d :: b) = ⟨[⟨1, .digits b⟩], 0⟩ := by
      rw [hd, scan, scan_only_digits hdb hnb]
      rfl
    rw [ha, hrest] at hsplit
    refine ⟨a, .inr ⟨b, ?_⟩⟩
    rw [← hsplit, scan_digits hda hna (by rw [hafter]; simp), hafter]

theorem releases_agree {r r' : List Char} (h : isRelease r = true) (h' : isRelease r' = true) : TextsAgree r r' := by
  obtain ⟨a, ha⟩ := scan_release h
  obtain ⟨b, hb⟩ := scan_release h'
  unfold TextsAgree
  rcases ha with ha | ⟨a', ha⟩ <;> rcases hb with hb | ⟨b', hb⟩ <;> rw [ha, hb] <;>
    simp [Agreeing, EndsAlike]

/-- What libalpm makes of a version without its epoch. -/
def splitEVR (rest : List Char) : List Char × Option (List Char) :=
  match splitRelease rest with
  | some (version, release) => (version, some release)
  | none => (rest, none)

/-- An epoch and what follows it, as both read them of a version the server takes. -/
structure Parsed (value : List Char) (a : PackageVersion) (epoch rest : List Char) : Prop where
  epoch_eq : a.epoch = stripZeros epoch
  digits : AllDigits epoch ∧ epoch ≠ []
  evr : parseEVR value = (epoch, splitEVR rest)
  release : ∀ r, a.pkgrel = some r → isRelease r = true

theorem parseEVR_eq (value : List Char) {epoch rest : List Char} (h : splitEpoch value = (epoch, rest))
    (hdigits : isDigits epoch = true) : parseEVR value = (epoch, splitEVR rest) := by
  simp only [isDigits, Bool.and_eq_true, decide_eq_true_eq, List.all_eq_true] at hdigits
  obtain ⟨hne, hall⟩ := hdigits
  have hsplit : value.takeWhile (· ≠ ':') ++ value.dropWhile (· ≠ ':') = value := List.takeWhile_append_dropWhile
  have hcut : (match value.span Char.isDigit with
      | (epoch, ':' :: rest) => (if epoch = [] then ['0'] else epoch, rest)
      | _ => (['0'], value)) = (epoch, rest) := by
    unfold splitEpoch at h
    rw [List.span_eq_takeWhile_dropWhile] at h ⊢
    split at h
    · next e heq =>
      -- no colon at all
      obtain rfl := (Prod.mk.inj h).1
      obtain rfl := (Prod.mk.inj h).2
      obtain ⟨-, hnil⟩ := Prod.mk.inj heq
      have hcolon : ':' ∉ value := fun hmem => by
        have := List.dropWhile_eq_nil_iff.mp hnil ':' hmem
        simp at this
      split
      · next e' r heq' =>
        obtain ⟨-, hdrop⟩ := Prod.mk.inj heq'
        exact absurd ((List.dropWhile_sublist _).subset (hdrop ▸ List.mem_cons_self)) hcolon
      · rfl
    · next e d r heq =>
      obtain ⟨rfl, rfl⟩ := Prod.mk.inj h
      obtain ⟨he, hdrop⟩ := Prod.mk.inj heq
      have hd : d = ':' := by simpa using of_dropWhile hdrop
      rw [he, hdrop, hd] at hsplit
      rw [← hsplit, List.takeWhile_append_of_pos hall, List.dropWhile_append_of_pos hall]
      simp [hne]
  unfold parseEVR splitEVR
  rw [hcut]
  simp only
  split <;> rfl

theorem parsed {value : List Char} {a : PackageVersion} (h : parseArchPackageVersion value = some a) :
    ∃ epoch rest, Parsed value a epoch rest := by
  unfold parseArchPackageVersion at h
  split_ifs at h with htext
  rcases hsplit : splitEpoch value with ⟨epoch, rest⟩
  rw [hsplit] at h
  simp only at h
  split_ifs at h with hbad
  rw [not_or] at hbad
  have hdigits : isDigits epoch = true := by simpa using hbad.1
  have hevr := parseEVR_eq value hsplit hdigits
  simp only [isDigits, Bool.and_eq_true, decide_eq_true_eq, List.all_eq_true] at hdigits
  refine ⟨epoch, rest, ?_, ⟨hdigits.2, hdigits.1⟩, hevr, ?_⟩
  · split at h
    · split_ifs at h <;> rw [← Option.some.inj h]
    · rw [← Option.some.inj h]
  · intro r hr
    split at h
    · split_ifs at h with hrelease
      · rw [← Option.some.inj h] at hr
        cases hr
        exact hrelease.2
      · rw [← Option.some.inj h] at hr
        cases hr
    · rw [← Option.some.inj h] at hr
      cases hr

theorem stripZeros_inj {x y : List Char} :
    (compare x.length y.length).then (compareChars x y) = .eq ↔ x = y := by
  constructor
  · intro h
    cases hc : compare x.length y.length with
    | eq =>
      rw [hc] at h
      exact compareChars_eq.mp h
    | lt =>
      rw [hc] at h
      cases h
    | gt =>
      rw [hc] at h
      cases h
  · rintro rfl
    rw [Nat.compare_eq_eq.mpr rfl]
    exact compareChars_eq.mpr rfl

/-- Whether it makes no difference to libalpm that the server takes only numbers for a release. -/
def SplitAlike (left right : List Char) (a b : PackageVersion) : Prop :=
  a.epoch = b.epoch →
    compareReleases (a.pkgver, a.pkgrel) (b.pkgver, b.pkgrel) = compareReleases (parseEVR left).2 (parseEVR right).2

theorem compareArchVersions_eq_iff {left right : List Char} {a b : PackageVersion}
    (ha : parseArchPackageVersion left = some a) (hb : parseArchPackageVersion right = some b)
    (htext : compareVersionText a.pkgver b.pkgver = rpmvercmp a.pkgver b.pkgver) :
    compareArchVersions left right = some (vercmp left right) ↔ SplitAlike left right a b := by
  obtain ⟨e, rest, hpa⟩ := parsed ha
  obtain ⟨e', rest', hpb⟩ := parsed hb
  have hepoch : rpmvercmp e e' = (compare a.epoch.length b.epoch.length).then (compareChars a.epoch b.epoch) := by
    rw [hpa.epoch_eq, hpb.epoch_eq, compareStripped hpa.digits hpb.digits, rpmvercmp, scan_only_digits hpa.digits.1 hpa.digits.2,
      scan_only_digits hpb.digits.1 hpb.digits.2]
    simp only [compareRuns, compareSegment_digits hpa.digits.1 hpb.digits.1]
    cases compare (value e) (value e') <;> simp [Ordering.then]
  have hevr : (parseEVR left).1 = e ∧ (parseEVR right).1 = e' := by rw [hpa.evr, hpb.evr]; exact ⟨rfl, rfl⟩
  have hcode : compareArchVersions left right = some (((compare a.epoch.length b.epoch.length).then
      (compareChars a.epoch b.epoch)).then (compareReleases (a.pkgver, a.pkgrel) (b.pkgver, b.pkgrel))) := by
    simp only [compareArchVersions, ha, hb, compareReleases, htext]
    cases hra : a.pkgrel with
    | none => rfl
    | some r =>
      cases hrb : b.pkgrel with
      | none => rfl
      | some r' =>
        simp only
        rw [(compareVersionText_eq_iff r r').mpr (releases_agree (hpa.release r hra) (hpb.release r' hrb))]
  rw [hcode, vercmp, Option.some.injEq, hevr.1, hevr.2, hepoch, SplitAlike, ← stripZeros_inj]
  cases (compare a.epoch.length b.epoch.length).then (compareChars a.epoch b.epoch) <;> simp [Ordering.then]

end Omapkg.Server.Arch
