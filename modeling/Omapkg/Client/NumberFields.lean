import Omapkg.Client.GoJson
/-!
# Numbers of a manifest

The two readers of `client.go` for numbers that count something:
`strconvParseUint` goes through every character and refuses what is not a
digit, `numberFieldOK` leaves the text to `fmt.Sscan`, which stops where the
digits end.
-/

namespace Omapkg.Client

open Json

/-! ## The digits of a number -/

/-- A text of digits alone. -/
def plainDecimal (text : List Char) : Bool := !text.isEmpty && text.all Char.isDigit

/-- The integer below `2 ^ 64` that a text of digits denotes. -/
def plainUint (text : List Char) : Option Nat :=
  if plainDecimal text ∧ Nat.ofDigitChars 10 text 0 < 2 ^ 64 then some (Nat.ofDigitChars 10 text 0) else none

theorem isDigit_iff (c : Char) : c.isDigit = true ↔ ¬(c < '0' ∨ c > '9') := by
  rw [not_or, not_lt, not_lt]
  simp only [Char.isDigit, Bool.and_eq_true, decide_eq_true_eq]
  exact Iff.rfl

/-- The bound that is checked before a digit is added. -/
theorem digit_overflows {r d : Nat} (hd : d ≤ 9) : r > (2 ^ 64 - 1 - d) / 10 ↔ 2 ^ 64 ≤ 10 * r + d := by
  omega

theorem strconvParseUintFrom_eq (cs : List Char) (r : Nat) (hr : r < 2 ^ 64) :
    strconvParseUintFrom r cs =
      if cs.all Char.isDigit ∧ Nat.ofDigitChars 10 cs r < 2 ^ 64 then some (Nat.ofDigitChars 10 cs r) else none := by
  induction cs generalizing r with
  | nil =>
    rw [strconvParseUintFrom, Nat.ofDigitChars_nil, if_pos ⟨rfl, hr⟩]
  | cons c cs ih =>
    have h0 : '0'.toNat = 48 := rfl
    rw [strconvParseUintFrom, Nat.ofDigitChars_cons, List.all_cons, h0]
    by_cases hc : c.isDigit = true
    · have hn : c.toNat ≤ 57 := by
        have h := (isDigit_iff c).mp hc
        rw [not_or, not_lt, not_lt] at h
        exact h.2
      rw [if_neg ((isDigit_iff c).mp hc), hc, Bool.true_and]
      by_cases hover : r > (2 ^ 64 - 1 - (c.toNat - 48)) / 10
      · -- the digits that follow only make the number larger
        have hge := ofDigitChars_ge cs (10 * r + (c.toNat - 48))
        have hlarge := (digit_overflows (by omega)).mp hover
        rw [if_pos hover, if_neg fun h => absurd h.2 (by omega)]
      · have hlt : 10 * r + (c.toNat - 48) < 2 ^ 64 := not_le.mp fun h => hover ((digit_overflows (by omega)).mpr h)
        rw [if_neg hover, Nat.mul_comm r 10]
        exact ih _ hlt
    · rw [if_pos (not_not.mp fun h => hc ((isDigit_iff c).mpr h))]
      simp [hc]

/-- A text is read when it is digits of a number that fits, and as that number. -/
theorem strconvParseUint_eq (text : List Char) : strconvParseUint text = plainUint text := by
  unfold strconvParseUint plainUint plainDecimal
  cases text with
  | nil => rfl
  | cons c cs =>
    rw [if_neg (List.cons_ne_nil c cs), strconvParseUintFrom_eq _ 0 (by decide)]
    rfl

/-! ## What a scan stops at -/

/-- The integer a literal starts with: its sign and the digits up to the first other character. -/
def integerPart (text : List Char) : Int :=
  let (sign, r) := lexSign text
  if sign = ['-'] then -Nat.ofDigitChars 10 (digits r) 0 else Nat.ofDigitChars 10 (digits r) 0

def fitsInt (i : Int) : Prop := -2 ^ 63 ≤ i ∧ i < 2 ^ 63

instance (i : Int) : Decidable (fitsInt i) := inferInstanceAs (Decidable (_ ∧ _))

/-- A literal has a digit after its sign. -/
theorem numeral_digits_ne_nil (n : Numeral) : digits (lexSign n.text).2 ≠ [] := by
  have h := n.literal
  intro hnil
  rw [lexNumber] at h
  rcases hs : lexSign n.text with ⟨sign, r⟩
  rw [hs] at h hnil
  rcases r with _ | ⟨c, r⟩
  · simp [lexInt] at h
  · have hc : c.isDigit = false := by
      by_contra hc
      simp [digits, hc] at hnil
    have h0 : c ≠ '0' := by
      rintro rfl
      exact absurd hc (by decide)
    simp [lexInt, h0, hc] at h

theorem sscanInt_numeral (n : Numeral) :
    sscanInt n.text = if fitsInt (integerPart n.text) then some (integerPart n.text) else none := by
  have hd := numeral_digits_ne_nil n
  unfold sscanInt integerPart
  generalize hs : lexSign n.text = x at hd ⊢
  obtain ⟨sign, r⟩ := x
  simp only [parseInt64, hd, if_false, fitsInt]
  split_ifs <;> first | rfl | omega

theorem integerPart_plain {text : List Char} (h : plainDecimal text = true) :
    integerPart text = Nat.ofDigitChars 10 text 0 := by
  simp only [plainDecimal, Bool.and_eq_true, Bool.not_eq_true', List.all_eq_true] at h
  have hs : lexSign text = ([], text) := by
    unfold lexSign
    split
    · exact absurd (h.2 '-' List.mem_cons_self) (by decide)
    · rfl
  simp only [integerPart, hs, (digits_of_all h.2).1]
  rfl

/-! ## Both readers of one field -/

/-- The field is accepted when its literal is a plain integer below `2 ^ 64`,
and what is returned is that integer. -/
structure ReadsPlain (object : Object) (key : String) (n : Numeral) : Prop where
  accepts : ((numberFieldOK object key).isSome ∨ (strconvParseUint n.text).isSome) ↔ (plainUint n.text).isSome
  number : ∀ i, numberFieldOK object key = some i → ∃ v, plainUint n.text = some v ∧ i = v
  uint : ∀ v, strconvParseUint n.text = some v → plainUint n.text = some v

theorem numberFieldOK_eq {object : Object} {key : String} {n : Numeral} (h : numeralField object key = some n) :
    numberFieldOK object key = if fitsInt (integerPart n.text) then some (integerPart n.text) else none := by
  rw [numberFieldOK, h, Option.bind_some, sscanInt_numeral]

/-- Of digits alone the scan reads the number itself. -/
theorem numberFieldOK_plain {object : Object} {key : String} {n : Numeral} (h : numeralField object key = some n)
    (hp : plainDecimal n.text = true) {i : Int} (hi : numberFieldOK object key = some i) :
    ∃ v : Nat, plainUint n.text = some v ∧ i = v := by
  rw [numberFieldOK_eq h, integerPart_plain hp] at hi
  split at hi
  · rename_i hfit
    have hlt : Nat.ofDigitChars 10 n.text 0 < 2 ^ 64 := by
      have := hfit.2
      omega
    exact ⟨_, if_pos ⟨hp, hlt⟩, (Option.some.inj hi).symm⟩
  · cases hi

/-- `numberFieldOK` takes every literal whose integer part is an `int`,
whatever follows it. So the two readers take plain integers only where the
literal is digits alone, or its integer part no `int`. -/
theorem readsPlain_iff (object : Object) (key : String) (n : Numeral) (h : numeralField object key = some n) :
    (∀ text, strconvParseUint text = plainUint text) ∧
      (ReadsPlain object key n ↔ plainDecimal n.text ∨ ¬fitsInt (integerPart n.text)) := by
  refine ⟨strconvParseUint_eq, ⟨fun hr => ?_, fun hc => ?_⟩⟩
  · by_cases hfit : fitsInt (integerPart n.text)
    · have hfield := numberFieldOK_eq h
      rw [if_pos hfit] at hfield
      obtain ⟨v, hv, -⟩ := hr.number _ hfield
      rw [plainUint] at hv
      split at hv
      · rename_i hp
        exact .inl hp.1
      · cases hv
    · exact .inr hfit
  · have number : ∀ i, numberFieldOK object key = some i → ∃ v : Nat, plainUint n.text = some v ∧ i = v := by
      intro i hi
      rcases hc with hp | hfit
      · exact numberFieldOK_plain h hp hi
      · rw [numberFieldOK_eq h, if_neg hfit] at hi
        cases hi
    refine ⟨⟨?_, fun hv => .inr (by rwa [strconvParseUint_eq])⟩, number, fun v hv => by rwa [strconvParseUint_eq] at hv⟩
    rintro (hi | hv)
    · obtain ⟨i, hi⟩ := Option.isSome_iff_exists.mp hi
      obtain ⟨v, hv, -⟩ := number i hi
      rw [hv]
      rfl
    · rwa [strconvParseUint_eq] at hv

def threeHalves : Numeral := ⟨"1.5".toList, by decide⟩

/-- A fraction is read as the integer before its point. -/
theorem numberFieldOK_fraction :
    numberFieldOK [("index", .num threeHalves)] "index" = some 1 ∧ plainUint threeHalves.text = none ∧
      ¬ReadsPlain [("index", .num threeHalves)] "index" threeHalves := by
  refine ⟨by decide, by decide, fun h => ?_⟩
  obtain ⟨v, hv, -⟩ := h.number 1 (by decide)
  cases (show plainUint threeHalves.text = none by decide).symm.trans hv

theorem readsPlain_twelve : ReadsPlain [("index", .num (.ofNat 12))] "index" (.ofNat 12) :=
  ((readsPlain_iff _ "index" (.ofNat 12) rfl).2).mpr (.inl (by decide))

end Omapkg.Client
