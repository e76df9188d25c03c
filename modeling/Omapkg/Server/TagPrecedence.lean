import Omapkg.Lib.Pieces
import Omapkg.Server.GitTags
/-!
# Precedence of releases

The comparison of tags against the precedence of the releases that they name: numbers that
are not bounded, a pre-release before its release, and of two pre-releases of one kind the
one with the lower number. The last of these the comparison does not know.
-/

namespace Omapkg.Server.Tags

open Decimal

/-! ## Numbers in a row -/

/-- The first number counts most. -/
theorem toLex_lt_iff {f g : ℕ → ℕ} :
    toLex f < toLex g ↔ f 0 < g 0 ∨ f 0 = g 0 ∧ (toLex fun i => f (i + 1)) < toLex fun i => g (i + 1) := by
  constructor
  · rintro ⟨i, hsame, hlt⟩
    cases i with
    | zero => exact .inl hlt
    | succ i => exact .inr ⟨hsame 0 (Nat.zero_lt_succ i), i, fun j hj => hsame (j + 1) (Nat.succ_lt_succ hj), hlt⟩
  · rintro (hlt | ⟨hsame, i, hrest, hlt⟩)
    · exact ⟨0, fun j hj => absurd hj (Nat.not_lt_zero j), hlt⟩
    · refine ⟨i + 1, fun j hj => ?_, hlt⟩
      cases j with
      | zero => exact hsame
      | succ j => exact hrest j (Nat.lt_of_succ_lt_succ hj)

theorem toLex_eq_iff {f g : ℕ → ℕ} :
    toLex f = toLex g ↔ f 0 = g 0 ∧ (toLex fun i => f (i + 1)) = toLex fun i => g (i + 1) := by
  constructor
  · intro h
    have hfg : f = g := h
    rw [hfg]
    exact ⟨rfl, rfl⟩
  · rintro ⟨hhead, htail⟩
    have htail' : (fun i => f (i + 1)) = fun i => g (i + 1) := htail
    change f = g
    funext i
    cases i with
    | zero => exact hhead
    | succ i => exact congrFun htail' i

/-! ## The numbers of a tag -/

/-- A part of a version as it is compared. -/
structure IsNumber (part : Text) : Prop where
  digits : AllDigits part
  shape : part = ['0'] ∨ Numeral part

theorem isNumber_zero : IsNumber ['0'] := ⟨by simp [AllDigits, Char.isDigit], .inl rfl⟩

theorem isNumber_stripZeros {part : Text} (h : AllDigits part) : IsNumber (stripZeros part) := by
  unfold stripZeros
  dsimp only
  split
  · exact isNumber_zero
  · rename_i hne
    have hdigits : AllDigits (part.dropWhile (· = '0')) := fun c hc => h c ((List.dropWhile_suffix _).subset hc)
    refine ⟨hdigits, .inr ⟨hdigits, hne, fun hhead => ?_⟩⟩
    have hnot := List.head?_dropWhile_not (fun c => decide (c = '0')) part
    rw [hhead] at hnot
    simp at hnot

theorem mem_coreTail {c : Char} {cs : Text} (h : c ∈ coreTail cs) : c.isDigit = true ∨ isSeparator c = true := by
  induction cs using coreTail.induct with
  | case1 => cases h
  | case2 d hd =>
    rw [coreTail, if_pos hd, List.mem_singleton] at h
    exact .inl (h ▸ hd)
  | case3 d hd =>
    rw [coreTail, if_neg hd] at h
    cases h
  | case4 d e rest hd ih =>
    rw [coreTail, if_pos hd] at h
    rcases List.mem_cons.mp h with rfl | h
    · exact .inl hd
    · exact ih h
  | case5 d e rest hd hsep ih =>
    rw [coreTail, if_neg hd, if_pos hsep] at h
    rcases List.mem_cons.mp h with rfl | h
    · exact .inr hsep.1
    · exact ih h
  | case6 d e rest hd hsep =>
    rw [coreTail, if_neg hd, if_neg hsep] at h
    cases h

theorem isNumber_tagVersionParts {tag part : Text} (h : part ∈ tagVersionParts tag) : IsNumber part := by
  unfold tagVersionParts at h
  obtain ⟨piece, hpiece, rfl⟩ := List.mem_map.mp h
  obtain ⟨hmem, -⟩ := List.mem_filter.mp hpiece
  refine isNumber_stripZeros fun c hc => ?_
  obtain ⟨hcore, hsep⟩ := Pieces.mem_of_mem_splitOnP hmem hc
  refine (mem_coreTail hcore).resolve_right ?_
  rw [hsep]
  exact Bool.false_ne_true

/-- Of two numbers the longer is greater, and of one length the one with the greater text. -/
theorem comparePart_compares {a b : Text} (ha : IsNumber a) (hb : IsNumber b) :
    (comparePart a b).Compares (value a) (value b) := by
  have hshort {x y : Text} (hx : IsNumber x) (hy : IsNumber y) (hlt : x.length < y.length) : value x < value y := by
    refine value_lt_of_shorter hx.digits (hy.shape.resolve_left ?_) hlt
    rintro rfl
    rcases hx.shape with rfl | hnumeral
    · exact absurd hlt (Nat.lt_irrefl _)
    · exact hnumeral.leads (List.eq_nil_of_length_eq_zero (by simpa using hlt))
  unfold comparePart
  split
  · rename_i hlen
    split
    · rename_i hlt
      exact hshort hb ha hlt
    · exact hshort ha hb (by omega)
  · rename_i hlen
    rw [not_not] at hlen
    split
    · rename_i hne
      split
      · rename_i hlt
        exact (lt_iff hb.digits ha.digits hlen.symm).mp hlt
      · rename_i hnot
        refine Nat.lt_of_le_of_ne (Nat.le_of_not_lt fun hlt => hnot ((lt_iff hb.digits ha.digits hlen.symm).mpr hlt)) ?_
        exact fun heq => hne (value_inj ha.digits hb.digits hlen heq)
    · rename_i heq
      rw [not_not] at heq
      exact congrArg value heq

/-- The numbers of parts, with zeros behind them. -/
def numbersOf (parts : List Text) : Lex (ℕ → ℕ) := toLex fun i => value (parts.getD i ['0'])

theorem numbersOf_head (parts : List Text) : numbersOf parts 0 = value (parts.headD ['0']) := by
  cases parts with
  | nil => rfl
  | cons => rfl

theorem numbersOf_tail (parts : List Text) : (toLex fun i => numbersOf parts (i + 1)) = numbersOf parts.tail := by
  cases parts with
  | nil => rfl
  | cons => rfl

theorem numbersOf_lt_iff {a b : List Text} :
    numbersOf a < numbersOf b ↔ value (a.headD ['0']) < value (b.headD ['0']) ∨
      value (a.headD ['0']) = value (b.headD ['0']) ∧ numbersOf a.tail < numbersOf b.tail := by
  rw [← numbersOf_head, ← numbersOf_head, ← numbersOf_tail, ← numbersOf_tail]
  exact toLex_lt_iff

theorem numbersOf_eq_iff {a b : List Text} :
    numbersOf a = numbersOf b ↔
      value (a.headD ['0']) = value (b.headD ['0']) ∧ numbersOf a.tail = numbersOf b.tail := by
  rw [← numbersOf_head, ← numbersOf_head, ← numbersOf_tail, ← numbersOf_tail]
  exact toLex_eq_iff

theorem compareParts_compares {rounds : Nat} {a b : List Text} (ha : ∀ part ∈ a, IsNumber part)
    (hb : ∀ part ∈ b, IsNumber part) (hla : a.length ≤ rounds) (hlb : b.length ≤ rounds) :
    (compareParts rounds a b).Compares (numbersOf a) (numbersOf b) := by
  induction rounds generalizing a b with
  | zero =>
    rw [List.eq_nil_of_length_eq_zero (Nat.le_zero.mp hla), List.eq_nil_of_length_eq_zero (Nat.le_zero.mp hlb)]
    exact rfl
  | succ rounds ih =>
    have hheadD {l : List Text} (hl : ∀ part ∈ l, IsNumber part) : IsNumber (l.headD ['0']) := by
      cases l with
      | nil => exact isNumber_zero
      | cons part l => exact hl part List.mem_cons_self
    have hhead := comparePart_compares (hheadD ha) (hheadD hb)
    have htail := ih (fun part h => ha part (List.mem_of_mem_tail h)) (fun part h => hb part (List.mem_of_mem_tail h))
      (by rw [List.length_tail]; omega) (by rw [List.length_tail]; omega)
    unfold compareParts
    cases hpart : comparePart (a.headD ['0']) (b.headD ['0']) with
    | lt =>
      rw [hpart] at hhead
      exact numbersOf_lt_iff.mpr (.inl hhead)
    | gt =>
      rw [hpart] at hhead
      exact numbersOf_lt_iff.mpr (.inl hhead)
    | eq =>
      rw [hpart] at hhead
      have heq : value (a.headD ['0']) = value (b.headD ['0']) := hhead
      change (compareParts rounds a.tail b.tail).Compares _ _
      cases hrest : compareParts rounds a.tail b.tail with
      | lt =>
        rw [hrest] at htail
        exact numbersOf_lt_iff.mpr (.inr ⟨heq, htail⟩)
      | gt =>
        rw [hrest] at htail
        exact numbersOf_lt_iff.mpr (.inr ⟨heq.symm, htail⟩)
      | eq =>
        rw [hrest] at htail
        exact numbersOf_eq_iff.mpr ⟨heq, htail⟩

/-- What a tag is compared by: its numbers, and whether it is a final release. -/
def rank (tag : Text) : Lex (Lex (ℕ → ℕ) × Bool) := toLex (numbersOf (tagVersionParts tag), !isPrerelease tag)

/-- The comparison is that of a linear order. -/
theorem compareTagVersions_compares (a b : Text) : (compareTagVersions a b).Compares (rank a) (rank b) := by
  have hparts : (compareParts (max (tagVersionParts a).length (tagVersionParts b).length) (tagVersionParts a)
      (tagVersionParts b)).Compares (numbersOf (tagVersionParts a)) (numbersOf (tagVersionParts b)) :=
    compareParts_compares (fun _ => isNumber_tagVersionParts) (fun _ => isNumber_tagVersionParts) (Nat.le_max_left _ _)
      (Nat.le_max_right _ _)
  unfold compareTagVersions rank
  dsimp only
  cases hcompared : compareParts (max (tagVersionParts a).length (tagVersionParts b).length) (tagVersionParts a)
      (tagVersionParts b) with
  | lt =>
    rw [hcompared] at hparts
    exact Prod.Lex.toLex_lt_toLex.mpr (.inl hparts)
  | gt =>
    rw [hcompared] at hparts
    exact Prod.Lex.toLex_lt_toLex.mpr (.inl hparts)
  | eq =>
    rw [hcompared] at hparts
    have hnumbers : numbersOf (tagVersionParts a) = numbersOf (tagVersionParts b) := hparts
    rw [hnumbers]
    cases ha : isPrerelease a with
    | false =>
      cases hb : isPrerelease b with
      | false => exact rfl
      | true => exact Prod.Lex.toLex_lt_toLex.mpr (.inr ⟨rfl, Bool.false_lt_true⟩)
    | true =>
      cases hb : isPrerelease b with
      | false => exact Prod.Lex.toLex_lt_toLex.mpr (.inr ⟨rfl, Bool.false_lt_true⟩)
      | true => exact rfl

/-! ## Precedence -/

def numbers (tag : Text) : Lex (ℕ → ℕ) := numbersOf (tagVersionParts tag)

/-- The kind of a pre-release and its number: the first word, and the digits behind it. -/
def prerelease (tag : Text) : Option (Text × ℕ) :=
  tag.tails.findSome? fun rest => (startsPrerelease rest).map fun word =>
    (word, value (((rest.drop word.length).dropWhile fun c => isSeparator c || c = '_').takeWhile Char.isDigit))

/-- Two pre-releases of one version and one kind, the first with the lower number. -/
def EarlierPrerelease (a b : Text) : Prop :=
  numbers a = numbers b ∧ ∃ kind m n, prerelease a = some (kind, m) ∧ prerelease b = some (kind, n) ∧ m < n

/-- One release comes before another. -/
def Precedes (a b : Text) : Prop :=
  numbers a < numbers b ∨ numbers a = numbers b ∧ isPrerelease a = true ∧ isPrerelease b = false ∨ EarlierPrerelease a b

theorem isPrerelease_of_some {tag : Text} {found : Text × ℕ} (h : prerelease tag = some found) : isPrerelease tag = true := by
  obtain ⟨rest, hmem, hrest⟩ := List.exists_of_findSome?_eq_some h
  obtain ⟨word, hword, -⟩ := Option.map_eq_some_iff.mp hrest
  exact List.any_eq_true.mpr ⟨rest, hmem, by rw [hword]; rfl⟩

theorem rank_lt_iff {a b : Text} :
    rank a < rank b ↔ numbers a < numbers b ∨ numbers a = numbers b ∧ isPrerelease a = true ∧ isPrerelease b = false := by
  unfold rank
  rw [Prod.Lex.toLex_lt_toLex]
  refine or_congr Iff.rfl (and_congr Iff.rfl ?_)
  change ((!isPrerelease a) < !isPrerelease b) ↔ _
  generalize isPrerelease a = left
  generalize isPrerelease b = right
  cases left <;> cases right <;> decide

/-- Two pre-releases of one version are of one rank. -/
theorem EarlierPrerelease.rank_eq {a b : Text} (h : EarlierPrerelease a b) : rank a = rank b := by
  obtain ⟨hnumbers, kind, m, n, ha, hb, -⟩ := h
  have hnumbers' : numbersOf (tagVersionParts a) = numbersOf (tagVersionParts b) := hnumbers
  unfold rank
  rw [hnumbers', isPrerelease_of_some ha, isPrerelease_of_some hb]

theorem precedes_iff {a b : Text} : Precedes a b ↔ rank a < rank b ∨ EarlierPrerelease a b := by
  unfold Precedes
  rw [rank_lt_iff, or_assoc]

theorem rank_le_of_precedes {a b : Text} (h : Precedes a b) : rank a ≤ rank b := by
  rcases precedes_iff.mp h with hlt | hearlier
  · exact hlt.le
  · exact hearlier.rank_eq.le

theorem not_precedes_self (tag : Text) : ¬Precedes tag tag := by
  rw [precedes_iff]
  rintro (hlt | ⟨-, kind, m, n, hm, hn, hlt⟩)
  · exact lt_irrefl _ hlt
  · rw [hm] at hn
    cases hn
    exact Nat.lt_irrefl _ hlt

/-- The comparison knows the precedence of all releases but that of the pre-releases of one version. -/
theorem compareTagVersions_lt_iff {a b : Text} :
    compareTagVersions a b = .lt ↔ Precedes a b ∧ ¬EarlierPrerelease a b := by
  rw [(compareTagVersions_compares a b).eq_lt, precedes_iff]
  constructor
  · intro hlt
    exact ⟨.inl hlt, fun hearlier => absurd hearlier.rank_eq hlt.ne⟩
  · rintro ⟨hlt | hearlier, hnot⟩
    · exact hlt
    · exact absurd hearlier hnot

end Omapkg.Server.Tags
