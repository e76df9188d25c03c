import Mathlib.Data.String.Basic
import Omapkg.Client.State
import Omapkg.Lib.Decimal
import Omapkg.Wire.ReleaseUrls
/-!
# System versions, from the server to the client

The server takes `4.0.3`, `4.0.3-rc1` and `4.0.3-edge.1` for versions. The
client compares the three numbers, and what is left as text, where the release
comes before its candidates and `rc10` before `rc9`.
-/

namespace Omapkg.Wire

open Utf Json Decimal Omapkg.Server Omapkg.Client

/-! ## What a version reads as -/

/-- A number of a version, as the server takes it. -/
structure Number (cs : List Char) : Prop where
  digits : AllDigits cs
  leads : cs ≠ []
  short : cs.length ≤ 6
  zero : cs.head? = some '0' → cs = ['0']

theorem Number.numeral {cs : List Char} (h : Number cs) (hne : cs ≠ ['0']) : Numeral cs :=
  ⟨h.digits, h.leads, fun hzero => hne (h.zero hzero)⟩

theorem Number.inj {xs ys : List Char} (hx : Number xs) (hy : Number ys) (h : value xs = value ys) : xs = ys := by
  by_cases hx0 : xs = ['0']
  · by_cases hy0 : ys = ['0']
    · rw [hx0, hy0]
    · have hpos := (hy.numeral hy0).pos
      rw [← h, hx0] at hpos
      exact absurd hpos (by decide)
  · by_cases hy0 : ys = ['0']
    · have hpos := (hx.numeral hx0).pos
      rw [h, hy0] at hpos
      exact absurd hpos (by decide)
    · exact (hx.numeral hx0).inj (hy.numeral hy0) h

theorem number_zero : Number ['0'] :=
  ⟨fun c hc => by rw [List.mem_singleton.mp hc]; rfl, by decide, by decide, fun _ => rfl⟩

theorem versionNumber_some {cs ds r : List Char} (h : versionNumber cs = some (ds, r)) : Number ds ∧ cs = ds ++ r := by
  unfold versionNumber at h
  extract_lets ds' at h
  split_ifs at h with hok
  have hds : ds' = ds := congrArg Prod.fst (Option.some.inj h)
  have hr : afterDigits cs = r := congrArg Prod.snd (Option.some.inj h)
  subst hds hr
  have hdigits : AllDigits (digits cs) := fun c hc => List.mem_takeWhile_imp hc
  refine ⟨?_, List.takeWhile_append_dropWhile.symm⟩
  rcases hok with hzero | ⟨hne, hhead, hshort⟩
  · rw [hzero]
    exact number_zero
  · exact ⟨hdigits, hne, hshort, fun h => absurd h hhead⟩

theorem expect_some {c : Char} {cs r : List Char} (h : expect c cs = some r) : cs = c :: r := by
  cases cs with
  | nil => cases h
  | cons d cs =>
    simp only [expect] at h
    split_ifs at h with hd
    rw [hd, Option.some.inj h]

/-- What a candidate's name is followed by. -/
def candidateText : VersionCandidate → List Char
  | .final => []
  | .rc => ['-', 'r', 'c']
  | .edge => ['-', 'e', 'd', 'g', 'e', '.']

theorem candidateNumber_some {cs : List Char} {n : Nat} (h : candidateNumber cs = some n) : Numeral cs ∧ value cs = n := by
  unfold candidateNumber at h
  split_ifs at h with hok
  cases h
  exact ⟨⟨List.all_eq_true.mp hok.2.2.2, hok.1, hok.2.1⟩, rfl⟩

theorem versionSuffix_some {cs : List Char} {candidate : VersionCandidate} {n : Nat}
    (h : versionSuffix cs = some (candidate, n)) :
    ∃ ds, cs = candidateText candidate ++ ds ∧ value ds = n ∧ if candidate = .final then ds = [] else Numeral ds := by
  unfold versionSuffix at h
  split at h
  · cases h
    exact ⟨[], rfl, rfl, rfl⟩
  · rename_i ds
    obtain ⟨m, hm, hpair⟩ := Option.map_eq_some_iff.mp h
    cases hpair
    obtain ⟨hnumeral, hvalue⟩ := candidateNumber_some hm
    exact ⟨ds, rfl, hvalue, hnumeral⟩
  · rename_i ds
    obtain ⟨m, hm, hpair⟩ := Option.map_eq_some_iff.mp h
    cases hpair
    obtain ⟨hnumeral, hvalue⟩ := candidateNumber_some hm
    exact ⟨ds, rfl, hvalue, hnumeral⟩
  · cases h

/-- A text and the version it is: three numbers, and what marks a candidate. -/
structure VersionText (s : String) (v : SystemVersion) (a b c ds : List Char) : Prop where
  major : Number a
  minor : Number b
  patch : Number c
  version : v.version = a ++ '.' :: b ++ '.' :: c
  sequence : value ds = v.sequence
  numeral : if v.candidate = .final then ds = [] else Numeral ds
  text : s.toList = v.version ++ (candidateText v.candidate ++ ds)

theorem digits_of_candidate {candidate : VersionCandidate} {ds : List Char}
    (h : if candidate = .final then ds = [] else Numeral ds) : AllDigits ds := by
  split_ifs at h
  · rw [h]
    exact fun _ hc => absurd hc List.not_mem_nil
  · exact h.digits

theorem reads_of_parse {s : String} {v : SystemVersion} (h : parseSystemVersion (units s) = some v) :
    ∃ a b c ds, VersionText s v a b c ds := by
  unfold parseSystemVersion at h
  simp only [bind, Option.bind_eq_some_iff, Prod.exists] at h
  obtain ⟨a, r₁, ha, r₂, hdot, b, r₃, hb, r₄, hdot', c, r₅, hc, candidate, n, hsuffix, hv⟩ := h
  obtain ⟨hmajor, htext⟩ := versionNumber_some ha
  obtain ⟨hminor, rfl⟩ := versionNumber_some hb
  obtain ⟨hpatch, rfl⟩ := versionNumber_some hc
  obtain rfl := expect_some hdot
  obtain rfl := expect_some hdot'
  obtain ⟨ds, rfl, hvalue, hnumeral⟩ := versionSuffix_some hsuffix
  obtain rfl := Option.some.inj hv
  have hdigit {cs : List Char} (hcs : AllDigits cs) : ∀ x ∈ cs, isIdChar x = true := fun x hx => isIdChar_digit (hcs x hx)
  have hmark : ∀ x ∈ candidateText candidate, isIdChar x = true := by
    rw [← List.all_eq_true]
    cases candidate <;> rfl
  have hid : ∀ x ∈ ascii (units s), isIdChar x = true := by
    rw [htext]
    simp only [List.mem_append, List.mem_cons]
    rintro x (hx | rfl | hx | rfl | hx | hx | hx)
    · exact hdigit hmajor.digits x hx
    · decide
    · exact hdigit hminor.digits x hx
    · decide
    · exact hdigit hpatch.digits x hx
    · exact hmark x hx
    · exact hdigit (digits_of_candidate hnumeral) x hx
  have hs : s.toList = ascii (units s) := by
    conv_lhs => rw [← toText_units s]
    rw [toText_ascii (isAscii_of_id hid)]
    rfl
  refine ⟨a, b, c, ds, hmajor, hminor, hpatch, rfl, hvalue, hnumeral, ?_⟩
  rw [hs, htext]
  simp

/-! ## The client's numbers -/

theorem splitAt_digits {cs : List Char} (h : '.' ∉ cs) : splitAt '.' cs = [cs] := by
  induction cs with
  | nil => rfl
  | cons c cs ih =>
    rw [List.mem_cons, not_or] at h
    rw [splitAt, if_neg (Ne.symm h.1), ih h.2]

theorem splitAt_append {cs : List Char} (h : '.' ∉ cs) (rest : List Char) :
    splitAt '.' (cs ++ '.' :: rest) = cs :: splitAt '.' rest := by
  induction cs with
  | nil => rw [List.nil_append, splitAt, if_pos rfl]
  | cons c cs ih =>
    rw [List.mem_cons, not_or] at h
    rw [List.cons_append, splitAt, if_neg (Ne.symm h.1), ih h.2]

theorem Number.no_dot {cs : List Char} (h : Number cs) : '.' ∉ cs := fun hmem => absurd (h.digits _ hmem) (by decide)

/-- The numbers of a version. -/
def versionNumbers (v : SystemVersion) : List Nat := (splitAt '.' v.version).map value

theorem VersionText.split {s : String} {v : SystemVersion} {a b c ds : List Char} (h : VersionText s v a b c ds) :
    splitAt '.' v.version = [a, b, c] := by
  rw [h.version, List.append_assoc, List.cons_append, splitAt_append h.major.no_dot, splitAt_append h.minor.no_dot,
    splitAt_digits h.patch.no_dot]

theorem digit_range {c : Char} (h : c.isDigit = true) : 48 ≤ c.toNat ∧ c.toNat ≤ 57 := by
  simp only [Char.isDigit, Bool.and_eq_true, decide_eq_true_eq, ge_iff_le, UInt32.le_iff_toNat_le] at h
  exact h

theorem isGoSpace_digit {c : Char} (h : c.isDigit = true) : isGoSpace c = false := by
  have hrange := digit_range h
  simp only [isGoSpace, List.contains_eq_mem, List.mem_cons, List.not_mem_nil, or_false, decide_eq_false_iff_not, not_or]
  refine ⟨?_, ?_, ?_, ?_, ?_, ?_, ?_, ?_, ?_, ?_, ?_, ?_, ?_, ?_, ?_, ?_, ?_, ?_, ?_, ?_, ?_, ?_, ?_, ?_⟩ <;>
    · rintro rfl
      revert hrange
      decide

theorem Number.sscanfInt {cs : List Char} (h : Number cs) : sscanfInt cs = (value cs : Int) := by
  obtain ⟨c, rest, rfl⟩ := List.exists_cons_of_ne_nil h.leads
  have hc : c.isDigit = true := h.digits c List.mem_cons_self
  have hall : Json.digits (c :: rest) = c :: rest := List.takeWhile_eq_self_iff.mpr h.digits
  have hskip : (c :: rest).dropWhile isGoSpace = c :: rest := by
    rw [List.dropWhile_cons, if_neg (by rw [isGoSpace_digit hc]; decide)]
  have hsmall : value (c :: rest) < 2 ^ 63 :=
    calc value (c :: rest) < 10 ^ (c :: rest).length := value_lt h.digits
      _ ≤ 10 ^ 6 := Nat.pow_le_pow_right (by decide) h.short
      _ < 2 ^ 63 := by decide
  have hparse : parseInt64 [] (c :: rest) = some (value (c :: rest) : Int) := by
    unfold parseInt64
    rw [if_neg (List.cons_ne_nil _ _)]
    simp only
    rw [if_neg (by decide)]
    exact if_pos hsmall
  unfold Client.sscanfInt
  simp only [hskip]
  split
  · next heq =>
    cases heq
    exact absurd hc (by decide)
  · next heq =>
    cases heq
    exact absurd hc (by decide)
  · rw [hall, hparse]
    rfl

theorem Number.no_dash {cs : List Char} (h : Number cs) : ∀ c ∈ cs, (decide (c ≠ '-')) = true := by
  intro c hc
  have hdigit := h.digits c hc
  rw [decide_eq_true_iff]
  rintro rfl
  exact absurd hdigit (by decide)

theorem VersionText.beforeDash {s : String} {v : SystemVersion} {a b c ds : List Char} (h : VersionText s v a b c ds) :
    s.toList.takeWhile (· ≠ '-') = v.version := by
  have hversion : ∀ x ∈ v.version, (decide (x ≠ '-')) = true := by
    rw [h.version]
    simp only [List.mem_append, List.mem_cons]
    rintro x ((hx | rfl | hx) | rfl | hx)
    · exact h.major.no_dash x hx
    · decide
    · exact h.minor.no_dash x hx
    · decide
    · exact h.patch.no_dash x hx
  have hrest : (candidateText v.candidate ++ ds).takeWhile (fun x => decide (x ≠ '-')) = [] := by
    have hnumeral := h.numeral
    cases hcandidate : v.candidate with
    | final =>
      rw [hcandidate, if_pos rfl] at hnumeral
      rw [hnumeral]
      rfl
    | rc => rfl
    | edge => rfl
  rw [h.text, List.takeWhile_append_of_pos hversion, hrest, List.append_nil]

theorem VersionText.parseVersionNumbers {s : String} {v : SystemVersion} {a b c ds : List Char} (h : VersionText s v a b c ds) :
    parseVersionNumbers s = (versionNumbers v).map Int.ofNat := by
  unfold Client.parseVersionNumbers
  rw [h.beforeDash, versionNumbers, h.split]
  simp [List.range, List.range.loop, h.major.sscanfInt, h.minor.sscanfInt, h.patch.sscanfInt]

/-- The first difference of as many numbers. -/
theorem compareNumbers_eq {xs ys : List Nat} (h : xs.length = ys.length) :
    compareNumbers (xs.map Int.ofNat) (ys.map Int.ofNat) = if xs < ys then -1 else if ys < xs then 1 else 0 := by
  induction xs generalizing ys with
  | nil =>
    obtain rfl := List.length_eq_zero_iff.mp h.symm
    rfl
  | cons x xs ih =>
    cases ys with
    | nil => cases h
    | cons y ys =>
      rw [List.map_cons, List.map_cons, compareNumbers, ih (Nat.succ.inj h)]
      simp only [List.cons_lt_cons_iff, Int.ofNat_eq_natCast, Int.ofNat_lt, gt_iff_lt]
      rcases Nat.lt_trichotomy x y with hlt | rfl | hgt
      · simp [hlt]
      · simp
      · simp [hgt, Nat.lt_asymm hgt, Nat.ne_of_gt hgt]

theorem append_lt_iff (p xs ys : List Char) : p ++ xs < p ++ ys ↔ xs < ys := by
  induction p with
  | nil => rfl
  | cons c p ih => rw [List.cons_append, List.cons_append, List.cons_lt_cons_iff, ih]; simp

/-! ## Precedence -/

/-- Whether a version is older than another: by its numbers, then a candidate than
its release, then by the number of a candidate of one kind. -/
def Before (l r : SystemVersion) : Prop :=
  versionNumbers l < versionNumbers r ∨ (versionNumbers l = versionNumbers r ∧
    ((l.candidate ≠ .final ∧ r.candidate = .final) ∨ (l.candidate = r.candidate ∧ l.sequence < r.sequence)))

/-- An order of two versions that is the order of their releases. Candidates of two
kinds may come either way. -/
structure ByPrecedence (l r : SystemVersion) (order : Int) : Prop where
  before : Before l r → order < 0
  after : Before r l → 0 < order
  same : l = r → order = 0

/-- Whether what is left after the numbers is in the order of its text. -/
def TextInOrder (l r : SystemVersion) : Prop :=
  versionNumbers l = versionNumbers r → (l.candidate = .final ↔ r.candidate = .final) ∧
    (l.candidate = r.candidate → InTextOrder l.sequence r.sequence)

theorem VersionText.version_eq {s s' : String} {l r : SystemVersion} {a b c ds a' b' c' ds' : List Char}
    (hl : VersionText s l a b c ds) (hr : VersionText s' r a' b' c' ds') (h : versionNumbers l = versionNumbers r) :
    l.version = r.version := by
  simp only [versionNumbers, hl.split, hr.split, List.map_cons, List.map_nil, List.cons.injEq, and_true] at h
  rw [hl.version, hr.version, hl.major.inj hr.major h.1, hl.minor.inj hr.minor h.2.1, hl.patch.inj hr.patch h.2.2]

theorem compareText_eq {left right : String} {p xs ys : List Char} (hl : left.toList = p ++ xs)
    (hr : right.toList = p ++ ys) : compareText left right = if xs = ys then 0 else if xs < ys then -1 else 1 := by
  have heq : left = right ↔ xs = ys := by
    rw [← String.toList_inj, hl, hr, List.append_cancel_left_eq]
  unfold compareText
  simp only [heq, String.lt_iff_toList_lt, hl, hr, append_lt_iff]

theorem candidateText_cons {candidate : VersionCandidate} (h : candidate ≠ .final) (ds : List Char) :
    ∃ c cs, candidateText candidate ++ ds = c :: cs := by
  cases candidate with
  | final => exact absurd rfl h
  | rc => exact ⟨_, _, rfl⟩
  | edge => exact ⟨_, _, rfl⟩

/-- What the client makes of two versions of the server. -/
theorem VersionText.compare {s s' : String} {l r : SystemVersion} {a b c ds a' b' c' ds' : List Char}
    (hl : VersionText s l a b c ds) (hr : VersionText s' r a' b' c' ds') :
    compareSystemVersion s s' = if versionNumbers l < versionNumbers r then -1
      else if versionNumbers r < versionNumbers l then 1
      else if candidateText l.candidate ++ ds = candidateText r.candidate ++ ds' then 0
      else if candidateText l.candidate ++ ds < candidateText r.candidate ++ ds' then -1 else 1 := by
  have hlength : (versionNumbers l).length = (versionNumbers r).length := by
    rw [versionNumbers, versionNumbers, hl.split, hr.split]
    rfl
  unfold compareSystemVersion
  rw [hl.parseVersionNumbers, hr.parseVersionNumbers]
  extract_lets numbers
  have hnumbers : numbers = if versionNumbers l < versionNumbers r then -1
      else if versionNumbers r < versionNumbers l then 1 else 0 := compareNumbers_eq hlength
  by_cases hlt : versionNumbers l < versionNumbers r
  · rw [hnumbers, if_pos hlt, if_pos hlt, if_pos (by decide)]
  by_cases hgt : versionNumbers r < versionNumbers l
  · rw [hnumbers, if_neg hlt, if_pos hgt, if_neg hlt, if_pos hgt, if_pos (by decide)]
  have hsame : versionNumbers l = versionNumbers r := List.le_antisymm (List.not_lt.mp hgt) (List.not_lt.mp hlt)
  rw [hnumbers, if_neg hlt, if_neg hgt, if_neg hlt, if_neg hgt, if_neg (by decide)]
  exact compareText_eq (hl.version_eq hr hsame ▸ hl.text) hr.text

/-- The numbers of two candidates of one kind. -/
theorem byPrecedence_sequence {l r : SystemVersion} {ds ds' : List Char} (hnumbers : versionNumbers l = versionNumbers r)
    (hversion : l.version = r.version) (hkind : l.candidate = r.candidate) (hfinal : l.candidate ≠ .final)
    (hl : Numeral ds) (hr : Numeral ds') (hls : value ds = l.sequence) (hrs : value ds' = r.sequence) :
    ByPrecedence l r (if ds = ds' then 0 else if ds < ds' then -1 else 1) ↔ InTextOrder l.sequence r.sequence := by
  have hlr : Before l r ↔ value ds < value ds' := by
    simp [Before, hnumbers, ← hkind, hfinal, hls, hrs]
  have hrl : Before r l ↔ value ds' < value ds := by
    simp [Before, hnumbers, ← hkind, hfinal, hls, hrs]
  rw [← hls, ← hrs, inTextOrder_iff hl hr]
  by_cases heq : ds = ds'
  · subst heq
    refine iff_of_true ⟨fun h => ?_, fun h => ?_, fun _ => if_pos rfl⟩ ⟨fun h => ?_, fun h => ?_⟩
    · exact absurd (hlr.mp h) (Nat.lt_irrefl _)
    · exact absurd (hrl.mp h) (Nat.lt_irrefl _)
    · exact absurd h (Nat.lt_irrefl _)
    · exact absurd h (Nat.lt_irrefl _)
  · have hne : l ≠ r := by
      rintro rfl
      exact heq (hl.inj hr (hls.trans hrs.symm))
    rw [if_neg heq]
    constructor
    · intro h
      refine ⟨fun hlt => ?_, fun hlt => ?_⟩
      · by_contra hno
        have := h.before (hlr.mpr hlt)
        rw [if_neg hno] at this
        exact absurd this (by decide)
      · have := h.after (hrl.mpr hlt)
        split_ifs at this with hlt'
        · exact absurd this (by decide)
        · exact by_contra fun hno => heq (List.le_antisymm (List.not_lt.mp hno) (List.not_lt.mp hlt'))
    · rintro ⟨hbefore, hafter⟩
      refine ⟨fun h => ?_, fun h => ?_, fun h => absurd h hne⟩
      · rw [if_pos (hbefore (hlr.mp h))]
        decide
      · rw [if_neg (List.lt_asymm (hafter (hrl.mp h)))]
        decide

theorem versionNumbers_irrefl (v : SystemVersion) : ¬versionNumbers v < versionNumbers v := List.lt_irrefl _

/-- Versions whose numbers differ are in the order of these. -/
theorem byPrecedence_numbers {l r : SystemVersion} (h : versionNumbers l < versionNumbers r) :
    ByPrecedence l r (-1) ∧ ByPrecedence r l 1 := by
  have hno : ¬Before r l := by
    rintro (hgt | ⟨heq, -⟩)
    · exact List.lt_asymm h hgt
    · rw [heq] at h
      exact versionNumbers_irrefl _ h
  have hne : l ≠ r := by
    rintro rfl
    exact versionNumbers_irrefl _ h
  exact ⟨⟨fun _ => by decide, fun h => absurd h hno, fun h => absurd h hne⟩,
    ⟨fun h => absurd h hno, fun _ => by decide, fun h => absurd h.symm hne⟩⟩

/-- The client compares versions of the server by precedence exactly when they have
other numbers, or what follows these is in the order of its text. -/
theorem compare_by_precedence_iff (left right : String) (l r : SystemVersion)
    (hl : parseSystemVersion (units left) = some l) (hr : parseSystemVersion (units right) = some r) :
    ByPrecedence l r (compareSystemVersion left right) ↔ TextInOrder l r := by
  obtain ⟨a, b, c, ds, hl⟩ := reads_of_parse hl
  obtain ⟨a', b', c', ds', hr⟩ := reads_of_parse hr
  rw [hl.compare hr]
  by_cases hlt : versionNumbers l < versionNumbers r
  · rw [if_pos hlt]
    exact iff_of_true (byPrecedence_numbers hlt).1 fun heq => absurd (heq ▸ hlt) (versionNumbers_irrefl _)
  by_cases hgt : versionNumbers r < versionNumbers l
  · rw [if_neg hlt, if_pos hgt]
    exact iff_of_true (byPrecedence_numbers hgt).2 fun heq => absurd (heq ▸ hgt) (versionNumbers_irrefl _)
  have hsame : versionNumbers l = versionNumbers r := List.le_antisymm (List.not_lt.mp hgt) (List.not_lt.mp hlt)
  have hversion := hl.version_eq hr hsame
  rw [if_neg hlt, if_neg hgt]
  have hnl := hl.numeral
  have hnr := hr.numeral
  by_cases hkind : l.candidate = r.candidate
  · by_cases hfinal : l.candidate = .final
    · -- both are releases
      rw [if_pos hfinal] at hnl
      rw [if_pos (hkind ▸ hfinal)] at hnr
      have hsequence : l.sequence = r.sequence := by rw [← hl.sequence, ← hr.sequence, hnl, hnr]
      rw [hkind, hnl, hnr, if_pos rfl]
      refine iff_of_true ⟨fun h => ?_, fun h => ?_, fun _ => rfl⟩ fun _ => ⟨by rw [hkind], fun _ => .inl (by rw [hsequence])⟩
      · simp [Before, hsame, hsequence, ← hkind, hfinal] at h
      · simp [Before, hsame, hsequence, ← hkind, hfinal] at h
    · -- two candidates of a kind
      rw [if_neg hfinal] at hnl
      rw [if_neg (hkind ▸ hfinal)] at hnr
      simp only [hkind, List.append_cancel_left_eq, append_lt_iff]
      rw [byPrecedence_sequence hsame hversion hkind hfinal hnl hnr hl.sequence hr.sequence]
      exact ⟨fun h _ => ⟨by rw [hkind], fun _ => h⟩, fun h => (h hsame).2 hkind⟩
  · by_cases hlfinal : l.candidate = .final
    · -- the text of a release comes first
      have hrfinal : r.candidate ≠ .final := fun h => hkind (hlfinal.trans h.symm)
      rw [if_pos hlfinal] at hnl
      have hshort : candidateText l.candidate ++ ds = [] := by rw [hlfinal, hnl]; rfl
      obtain ⟨x, xs, hlong⟩ := candidateText_cons hrfinal ds'
      rw [hshort, hlong, if_neg (by simp), if_pos (by simp)]
      refine iff_of_false (fun h => ?_) fun h => hrfinal ((h hsame).1.mp hlfinal)
      exact absurd (h.after (.inr ⟨hsame.symm, .inl ⟨hrfinal, hlfinal⟩⟩)) (by decide)
    by_cases hrfinal : r.candidate = .final
    · rw [if_pos hrfinal] at hnr
      have hshort : candidateText r.candidate ++ ds' = [] := by rw [hrfinal, hnr]; rfl
      obtain ⟨x, xs, hlong⟩ := candidateText_cons hlfinal ds
      rw [hshort, hlong, if_neg (by simp), if_neg (by simp)]
      refine iff_of_false (fun h => ?_) fun h => hlfinal ((h hsame).1.mpr hrfinal)
      exact absurd (h.before (.inr ⟨hsame, .inl ⟨hlfinal, hrfinal⟩⟩)) (by decide)
    · -- candidates of two kinds
      refine iff_of_true ⟨fun h => ?_, fun h => ?_, fun h => absurd (congrArg SystemVersion.candidate h) hkind⟩
        fun _ => ⟨iff_of_false hlfinal hrfinal, fun h => absurd h hkind⟩
      · simp [Before, hsame, hrfinal, hkind] at h
      · simp [Before, hsame, hlfinal, Ne.symm hkind] at h

/-- A version and the one before it. -/
theorem compare_by_precedence_patch :
    ByPrecedence ⟨"4.0.3".toList, .rc, 9⟩ ⟨"4.0.10".toList, .final, 0⟩ (compareSystemVersion "4.0.3-rc9" "4.0.10") :=
  (compare_by_precedence_iff "4.0.3-rc9" "4.0.10" _ _ (by decide +kernel) (by decide +kernel)).mpr fun h =>
    absurd h (by decide +kernel)

/-- `rc10` follows `rc9`, and `4.0.3` its candidates. -/
theorem compare_by_precedence_fails :
    ¬∀ (left right : String) (l r : SystemVersion), parseSystemVersion (units left) = some l →
      parseSystemVersion (units right) = some r → ByPrecedence l r (compareSystemVersion left right) := by
  intro h
  have hparses : parseSystemVersion (units "4.0.3-rc9") = some ⟨"4.0.3".toList, .rc, 9⟩ ∧
      parseSystemVersion (units "4.0.3-rc10") = some ⟨"4.0.3".toList, .rc, 10⟩ ∧
      compareSystemVersion "4.0.3-rc10" "4.0.3-rc9" = -1 := by
    decide +kernel
  obtain ⟨h9, h10, hdown⟩ := hparses
  have horder := h _ _ _ _ h10 h9
  have hpositive := horder.after (.inr ⟨rfl, .inr ⟨rfl, by decide⟩⟩)
  rw [hdown] at hpositive
  exact absurd hpositive (by decide)

end Omapkg.Wire
