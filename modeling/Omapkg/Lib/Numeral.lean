import Mathlib.Data.List.Basic
import Mathlib.Data.List.TakeWhile
import Mathlib.Tactic.Common
/-!
# JSON number literals

A lexer for the numbers of RFC 8259, and the literals it reads whole. A
literal keeps its spelling: two programs agree on a number exactly when they
write the same characters.
-/

namespace Json

/-! ## Number literals -/

/-- The digits a text starts with. -/
def digits (cs : List Char) : List Char := cs.takeWhile Char.isDigit

/-- What follows the digits a text starts with. -/
def afterDigits (cs : List Char) : List Char := cs.dropWhile Char.isDigit

def lexSign : List Char → List Char × List Char
  | '-' :: r => (['-'], r)
  | r => ([], r)

def lexInt : List Char → Option (List Char × List Char)
  | [] => none
  | c :: r =>
    if c = '0' then some (['0'], r)
    else if c.isDigit then some (c :: digits r, afterDigits r)
    else none

def lexFrac : List Char → Option (List Char × List Char)
  | '.' :: r => if digits r = [] then none else some ('.' :: digits r, afterDigits r)
  | r => some ([], r)

def lexExpSign : List Char → List Char × List Char
  | '+' :: r => (['+'], r)
  | '-' :: r => (['-'], r)
  | r => ([], r)

def lexExp : List Char → Option (List Char × List Char)
  | [] => some ([], [])
  | c :: r =>
    if c = 'e' ∨ c = 'E' then
      let (sign, r') := lexExpSign r
      if digits r' = [] then none else some (c :: sign ++ digits r', afterDigits r')
    else some ([], c :: r)

/-- The longest number literal a text starts with, and what follows it. -/
def lexNumber (cs : List Char) : Option (List Char × List Char) := do
  let (sign, r) := lexSign cs
  let (int, r) ← lexInt r
  let (frac, r) ← lexFrac r
  let (exp, r) ← lexExp r
  some (sign ++ int ++ frac ++ exp, r)

/-- A number literal, kept as it is spelled. -/
structure Numeral where
  text : List Char
  literal : lexNumber text = some (text, [])
  deriving DecidableEq

/-- A text that cannot continue a number literal. -/
def Stops (t : List Char) : Prop :=
  ∀ c ∈ t.head?, c.isDigit = false ∧ c ≠ '.' ∧ c ≠ 'e' ∧ c ≠ 'E' ∧ c ≠ '+' ∧ c ≠ '-'

theorem stops_nil : Stops [] := by simp [Stops]

theorem stops_cons {c : Char} {r : List Char} (h : c = ',' ∨ c = ']' ∨ c = '}') : Stops (c :: r) := by
  rintro d hd
  simp only [List.head?_cons, Option.mem_def, Option.some.injEq] at hd
  subst hd
  rcases h with rfl | rfl | rfl <;> decide

theorem Stops.head {c : Char} {r : List Char} (h : Stops (c :: r)) :
    c.isDigit = false ∧ c ≠ '.' ∧ c ≠ 'e' ∧ c ≠ 'E' ∧ c ≠ '+' ∧ c ≠ '-' := h c rfl

theorem digits_append {t : List Char} (ht : Stops t) (cs : List Char) :
    digits (cs ++ t) = digits cs ∧ afterDigits (cs ++ t) = afterDigits cs ++ t := by
  induction cs with
  | nil =>
    cases t with
    | nil => exact ⟨rfl, rfl⟩
    | cons c r => simp [digits, afterDigits, ht.head.1]
  | cons c cs ih =>
    simp only [digits, afterDigits] at ih
    cases hc : c.isDigit <;> simp [digits, afterDigits, hc, ih]

/-- A lexer that only looks at what it reads and the character after it. -/
def Local (lex : List Char → Option (List Char × List Char)) : Prop :=
  ∀ t, Stops t → ∀ cs, lex (cs ++ t) = (lex cs).map fun x => (x.1, x.2 ++ t)

theorem lexSign_append {t : List Char} (ht : Stops t) (cs : List Char) :
    lexSign (cs ++ t) = ((lexSign cs).1, (lexSign cs).2 ++ t) := by
  rcases cs with _ | ⟨c, cs⟩
  · rcases t with _ | ⟨d, r⟩
    · rfl
    · have hd := ht.head.2.2.2.2.2
      simp only [List.nil_append]
      unfold lexSign
      split
      · rename_i he; exact absurd (List.cons.inj he).1 hd
      · rfl
  · by_cases hc : c = '-'
    · subst hc; rfl
    · unfold lexSign
      split
      · rename_i he; exact absurd (List.cons.inj he).1 hc
      · split
        · rename_i he; exact absurd (List.cons.inj he).1 hc
        · rfl

theorem lexExpSign_append {t : List Char} (ht : Stops t) (cs : List Char) :
    lexExpSign (cs ++ t) = ((lexExpSign cs).1, (lexExpSign cs).2 ++ t) := by
  rcases cs with _ | ⟨c, cs⟩
  · rcases t with _ | ⟨d, r⟩
    · rfl
    · obtain ⟨-, -, -, -, hp, hm⟩ := ht.head
      simp only [List.nil_append]
      unfold lexExpSign
      split
      · rename_i he; exact absurd (List.cons.inj he).1 hp
      · rename_i he; exact absurd (List.cons.inj he).1 hm
      · rfl
  · by_cases hp : c = '+'
    · subst hp; rfl
    by_cases hm : c = '-'
    · subst hm; rfl
    unfold lexExpSign
    split
    · rename_i he; exact absurd (List.cons.inj he).1 hp
    · rename_i he; exact absurd (List.cons.inj he).1 hm
    · split
      · rename_i he; exact absurd (List.cons.inj he).1 hp
      · rename_i he; exact absurd (List.cons.inj he).1 hm
      · rfl

theorem lexInt_local : Local lexInt := by
  intro t ht cs
  rcases cs with _ | ⟨c, cs⟩
  · rcases t with _ | ⟨d, r⟩
    · rfl
    · have hd := ht.head.1
      have h0 : d ≠ '0' := by rintro rfl; simp at hd
      simp [lexInt, hd, h0]
  · obtain ⟨h1, h2⟩ := digits_append ht cs
    by_cases h0 : c = '0'
    · simp [lexInt, h0]
    · cases hc : c.isDigit <;> simp [lexInt, h0, hc, h1, h2]

theorem lexFrac_local : Local lexFrac := by
  intro t ht cs
  rcases cs with _ | ⟨c, cs⟩
  · rcases t with _ | ⟨d, r⟩
    · rfl
    · have hd := ht.head.2.1
      simp only [List.nil_append, lexFrac, Option.map_some]
      split
      · rename_i he; exact absurd (List.cons.inj he).1 hd
      · rfl
  · obtain ⟨h1, h2⟩ := digits_append ht cs
    by_cases hc : c = '.'
    · subst hc
      simp only [List.cons_append, lexFrac, h1, h2]
      split <;> rfl
    · unfold lexFrac
      split
      · rename_i he; exact absurd (List.cons.inj he).1 hc
      · split
        · rename_i he; exact absurd (List.cons.inj he).1 hc
        · rfl

theorem lexExp_local : Local lexExp := by
  intro t ht cs
  rcases cs with _ | ⟨c, cs⟩
  · rcases t with _ | ⟨d, r⟩
    · rfl
    · obtain ⟨-, -, he, hE, -, -⟩ := ht.head
      simp [lexExp, he, hE]
  · by_cases hc : c = 'e' ∨ c = 'E'
    · obtain ⟨h1, h2⟩ := digits_append ht (lexExpSign cs).2
      simp only [List.cons_append, lexExp, hc, if_true, lexExpSign_append ht cs, h1, h2]
      split <;> simp
    · simp [lexExp, hc]

theorem lexNumber_local : Local lexNumber := by
  intro t ht cs
  simp only [lexNumber, lexSign_append ht, lexInt_local t ht]
  cases lexInt (lexSign cs).2 with
  | none => rfl
  | some x =>
    simp only [Option.map_some, Option.bind_eq_bind, Option.bind_some, lexFrac_local t ht]
    cases lexFrac x.2 with
    | none => rfl
    | some y =>
      simp only [Option.map_some, Option.bind_some, lexExp_local t ht]
      cases lexExp y.2 with
      | none => rfl
      | some z => rfl

/-- A literal is read back whole, whatever follows it. -/
theorem Numeral.lex (n : Numeral) {t : List Char} (ht : Stops t) :
    lexNumber (n.text ++ t) = some (n.text, t) := by
  rw [lexNumber_local t ht, n.literal]
  rfl

/-- A literal starts with a minus sign or a digit. -/
theorem Numeral.head (n : Numeral) : ∃ c r, n.text = c :: r ∧ (c = '-' ∨ c.isDigit = true) := by
  have h := n.literal
  rcases ht : n.text with _ | ⟨c, r⟩
  · rw [ht] at h; simp [lexNumber, lexSign, lexInt] at h
  · refine ⟨c, r, rfl, ?_⟩
    by_cases hm : c = '-'
    · exact .inl hm
    · right
      have hs : lexSign (c :: r) = ([], c :: r) := by
        unfold lexSign
        split
        · rename_i he; exact absurd (List.cons.inj he).1 hm
        · rfl
      rw [ht] at h
      simp only [lexNumber, hs, lexInt] at h
      by_cases h0 : c = '0'
      · subst h0; rfl
      · by_contra hd
        simp [h0, hd] at h

/-! ## Decimals -/

theorem digits_of_all {cs : List Char} (h : ∀ c ∈ cs, c.isDigit = true) :
    digits cs = cs ∧ afterDigits cs = [] :=
  ⟨List.takeWhile_eq_self_iff.mpr h, List.dropWhile_eq_nil_iff.mpr h⟩

theorem toDigits_isDigit (n : Nat) : ∀ c ∈ Nat.toDigits 10 n, c.isDigit = true :=
  fun _ hc => Nat.isDigit_of_mem_toDigits (by decide) (by decide) hc

theorem digitChar_ne_zero : ∀ {n : Nat}, 0 < n → n < 10 → n.digitChar ≠ '0'
  | 1, _, _ | 2, _, _ | 3, _, _ | 4, _, _ | 5, _, _ | 6, _, _ | 7, _, _ | 8, _, _ | 9, _, _ => by decide

/-- A decimal has no leading zero. -/
theorem toDigits_head {n : Nat} (h : 0 < n) : ∃ c r, Nat.toDigits 10 n = c :: r ∧ c ≠ '0' := by
  induction n using Nat.strongRecOn with
  | ind n ih =>
    by_cases hlt : n < 10
    · exact ⟨_, [], Nat.toDigits_of_lt_base hlt, digitChar_ne_zero h hlt⟩
    · obtain ⟨c, r, hc, h0⟩ := ih (n / 10) (by omega) (by omega)
      refine ⟨c, r ++ [(n % 10).digitChar], ?_, h0⟩
      rw [Nat.toDigits_of_base_le (by decide) (by omega), hc, List.cons_append]

theorem lexNumber_toDigits (n : Nat) : lexNumber (Nat.toDigits 10 n) = some (Nat.toDigits 10 n, []) := by
  have hall := toDigits_isDigit n
  rcases Nat.eq_zero_or_pos n with rfl | hpos
  · decide
  · obtain ⟨c, r, hc, h0⟩ := toDigits_head hpos
    rw [hc] at hall ⊢
    have hd : c.isDigit = true := hall c (by simp)
    have hr : ∀ d ∈ r, d.isDigit = true := fun d hd => hall d (List.mem_cons_of_mem _ hd)
    obtain ⟨h1, h2⟩ := digits_of_all hr
    have hs : lexSign (c :: r) = ([], c :: r) := by
      unfold lexSign
      split
      · rename_i he; rw [(List.cons.inj he).1] at hd; simp at hd
      · rfl
    simp [lexNumber, hs, lexInt, h0, hd, h1, h2, lexFrac, lexExp]

/-- The literal of a natural number. -/
def Numeral.ofNat (n : Nat) : Numeral := ⟨Nat.toDigits 10 n, lexNumber_toDigits n⟩

theorem Numeral.ofNat_inj {m n : Nat} (h : Numeral.ofNat m = Numeral.ofNat n) : m = n := by
  have ht : Nat.toDigits 10 m = Nat.toDigits 10 n := congrArg Numeral.text h
  rw [← Nat.ofDigitChars_ten_toDigits (n := m), ht, Nat.ofDigitChars_ten_toDigits]

theorem lexNumber_neg {n : Nat} (h : 0 < n) :
    lexNumber ('-' :: Nat.toDigits 10 n) = some ('-' :: Nat.toDigits 10 n, []) := by
  obtain ⟨c, r, hc, h0⟩ := toDigits_head h
  have hall := toDigits_isDigit n
  rw [hc] at hall ⊢
  have hd : c.isDigit = true := hall c (by simp)
  obtain ⟨h1, h2⟩ := digits_of_all fun d hd => hall d (List.mem_cons_of_mem _ hd)
  simp [lexNumber, lexSign, lexInt, h0, hd, h1, h2, lexFrac, lexExp]

/-- The literal of an integer. -/
def Numeral.ofInt : Int → Numeral
  | .ofNat n => .ofNat n
  | .negSucc n => ⟨'-' :: Nat.toDigits 10 (n + 1), lexNumber_neg n.succ_pos⟩

end Json
