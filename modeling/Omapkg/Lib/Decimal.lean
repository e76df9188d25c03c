import Mathlib.Data.Nat.Log
import Mathlib.Tactic.Ring
/-!
# Decimals as text

Digits compared as text and as numbers. Texts of one length compare alike; of
two lengths, only the leading digits of the longer one count.
-/

namespace Decimal

/-- The number of digits of a text, most significant first. -/
def value (cs : List Char) : Nat := Nat.ofDigitChars 10 cs 0

def AllDigits (cs : List Char) : Prop := ∀ c ∈ cs, c.isDigit = true

def digitValue (c : Char) : Nat := c.toNat - '0'.toNat

theorem digitValue_lt {c : Char} (h : c.isDigit = true) : digitValue c < 10 := by
  simp only [Char.isDigit, Bool.and_eq_true, decide_eq_true_eq, ge_iff_le, UInt32.le_iff_toNat_le] at h
  have h9 : c.toNat ≤ 57 := h.2
  have h0 : '0'.toNat = 48 := rfl
  unfold digitValue
  omega

theorem char_lt_iff {c d : Char} (hc : c.isDigit = true) (hd : d.isDigit = true) : c < d ↔ digitValue c < digitValue d := by
  simp only [Char.isDigit, Bool.and_eq_true, decide_eq_true_eq, ge_iff_le, UInt32.le_iff_toNat_le] at hc hd
  have h0 : '0'.toNat = 48 := rfl
  have hc0 : 48 ≤ c.toNat := hc.1
  have hd0 : 48 ≤ d.toNat := hd.1
  rw [Char.lt_def, UInt32.lt_iff_toNat_lt]
  change c.toNat < d.toNat ↔ _
  unfold digitValue
  omega

theorem digitValue_inj {c d : Char} (hc : c.isDigit = true) (hd : d.isDigit = true) (h : digitValue c = digitValue d) :
    c = d := by
  simp only [Char.isDigit, Bool.and_eq_true, decide_eq_true_eq, ge_iff_le, UInt32.le_iff_toNat_le] at hc hd
  have h0 : '0'.toNat = 48 := rfl
  have hc0 : 48 ≤ c.toNat := hc.1
  have hd0 : 48 ≤ d.toNat := hd.1
  unfold digitValue at h
  exact Char.toNat_inj.mp (by omega)

@[simp] theorem value_nil : value [] = 0 := rfl

theorem value_cons (c : Char) (cs : List Char) : value (c :: cs) = digitValue c * 10 ^ cs.length + value cs := by
  unfold value
  rw [Nat.ofDigitChars_cons, Nat.ofDigitChars_eq_ofDigitChars_zero]
  simp only [digitValue, Nat.mul_zero, Nat.zero_add]
  ring

theorem value_append (xs ys : List Char) : value (xs ++ ys) = value xs * 10 ^ ys.length + value ys := by
  induction xs with
  | nil => simp
  | cons c xs ih =>
    rw [List.cons_append, value_cons, ih, value_cons, List.length_append]
    ring

theorem value_lt {cs : List Char} (h : AllDigits cs) : value cs < 10 ^ cs.length := by
  induction cs with
  | nil => decide
  | cons c cs ih =>
    obtain ⟨hc, hcs⟩ := List.forall_mem_cons.mp h
    have hd := digitValue_lt hc
    have hrest := ih hcs
    rw [value_cons, List.length_cons]
    calc digitValue c * 10 ^ cs.length + value cs < digitValue c * 10 ^ cs.length + 10 ^ cs.length := by omega
      _ = (digitValue c + 1) * 10 ^ cs.length := by ring
      _ ≤ 10 * 10 ^ cs.length := Nat.mul_le_mul_right _ (by omega)
      _ = 10 ^ (cs.length + 1) := by ring

/-- As many digits compare as their numbers do. -/
theorem lt_iff {xs ys : List Char} (hx : AllDigits xs) (hy : AllDigits ys) (hlen : xs.length = ys.length) :
    xs < ys ↔ value xs < value ys := by
  induction xs generalizing ys with
  | nil =>
    obtain rfl := List.length_eq_zero_iff.mp hlen.symm
    simp
  | cons c xs ih =>
    cases ys with
    | nil => cases hlen
    | cons d ys =>
      obtain ⟨hc, hxs⟩ := List.forall_mem_cons.mp hx
      obtain ⟨hd, hys⟩ := List.forall_mem_cons.mp hy
      have hlen : xs.length = ys.length := Nat.succ.inj hlen
      have hvx := value_lt hxs
      have hvy := value_lt hys
      rw [List.cons_lt_cons_iff, ih hxs hys hlen, value_cons, value_cons, char_lt_iff hc hd, hlen]
      rw [hlen] at hvx
      rcases Nat.lt_trichotomy (digitValue c) (digitValue d) with hlt | heq | hgt
      · have hstep : (digitValue c + 1) * 10 ^ ys.length ≤ digitValue d * 10 ^ ys.length := Nat.mul_le_mul_right _ hlt
        rw [Nat.add_mul, Nat.one_mul] at hstep
        exact iff_of_true (.inl hlt) (by omega)
      · obtain rfl := digitValue_inj hc hd heq
        simp
      · have hstep : (digitValue d + 1) * 10 ^ ys.length ≤ digitValue c * 10 ^ ys.length := Nat.mul_le_mul_right _ hgt
        rw [Nat.add_mul, Nat.one_mul] at hstep
        refine iff_of_false ?_ (by omega)
        rintro (h | ⟨rfl, -⟩)
        · omega
        · omega

/-- As many digits with one number are the same. -/
theorem value_inj {xs ys : List Char} (hx : AllDigits xs) (hy : AllDigits ys) (hlen : xs.length = ys.length)
    (h : value xs = value ys) : xs = ys := by
  have hxy : ¬xs < ys := fun hlt => absurd h (Nat.ne_of_lt ((lt_iff hx hy hlen).mp hlt))
  have hyx : ¬ys < xs := fun hlt => absurd h.symm (Nat.ne_of_lt ((lt_iff hy hx hlen.symm).mp hlt))
  exact List.le_antisymm (List.not_lt.mp hyx) (List.not_lt.mp hxy)

/-- A text comes before a longer one if it is not after its first characters. -/
theorem lt_append_iff {xs first rest : List Char} (hlen : xs.length = first.length) (hrest : rest ≠ []) :
    xs < first ++ rest ↔ xs < first ∨ xs = first := by
  induction xs generalizing first with
  | nil =>
    obtain rfl := List.length_eq_zero_iff.mp hlen.symm
    obtain ⟨c, rest, rfl⟩ := List.exists_cons_of_ne_nil hrest
    simp
  | cons c xs ih =>
    cases first with
    | nil => cases hlen
    | cons d first =>
      rw [List.cons_append, List.cons_lt_cons_iff, List.cons_lt_cons_iff, ih (Nat.succ.inj hlen), List.cons.injEq, and_or_left,
        or_assoc]

/-- Digits without a zero in front. -/
structure Numeral (cs : List Char) : Prop where
  digits : AllDigits cs
  leads : cs ≠ []
  head : cs.head? ≠ some '0'

theorem Numeral.pow_le {cs : List Char} (h : Numeral cs) : 10 ^ (cs.length - 1) ≤ value cs := by
  cases cs with
  | nil => exact absurd rfl h.leads
  | cons c cs =>
    obtain ⟨hc, -⟩ := List.forall_mem_cons.mp h.digits
    have hpos : 0 < digitValue c := by
      by_contra hzero
      have hc0 : c = '0' := digitValue_inj hc (by decide) (by rw [Nat.eq_zero_of_not_pos hzero]; rfl)
      exact h.head (by rw [hc0]; rfl)
    rw [value_cons, List.length_cons, Nat.add_sub_cancel]
    exact Nat.le_add_right_of_le (Nat.le_mul_of_pos_left _ hpos)

theorem Numeral.pos {cs : List Char} (h : Numeral cs) : 0 < value cs := Nat.lt_of_lt_of_le (Nat.pow_pos (by decide)) h.pow_le

/-- The number tells how many digits there are. -/
theorem Numeral.log_value {cs : List Char} (h : Numeral cs) : Nat.log 10 (value cs) = cs.length - 1 := by
  have hlen : 0 < cs.length := List.length_pos_iff.mpr h.leads
  refine Nat.log_eq_of_pow_le_of_lt_pow h.pow_le ?_
  rw [Nat.sub_add_cancel hlen]
  exact value_lt h.digits

theorem Numeral.inj {xs ys : List Char} (hx : Numeral xs) (hy : Numeral ys) (h : value xs = value ys) : xs = ys := by
  have hlx : 0 < xs.length := List.length_pos_iff.mpr hx.leads
  have hly : 0 < ys.length := List.length_pos_iff.mpr hy.leads
  have hlog := hx.log_value
  rw [h, hy.log_value] at hlog
  exact value_inj hx.digits hy.digits (by omega) h

/-- Of a longer text only its first digits count. -/
theorem lt_longer_iff {xs ys : List Char} (hx : AllDigits xs) (hy : AllDigits ys) (hlen : xs.length < ys.length) :
    xs < ys ↔ value xs ≤ value ys / 10 ^ (ys.length - xs.length) := by
  obtain ⟨ys, zs, rfl, hl⟩ : ∃ first rest, ys = first ++ rest ∧ first.length = xs.length :=
    ⟨ys.take xs.length, ys.drop xs.length, (List.take_append_drop _ _).symm, List.length_take_of_le hlen.le⟩
  have hfirst : AllDigits ys := fun c hc => hy c (List.mem_append_left _ hc)
  have hrest : AllDigits zs := fun c hc => hy c (List.mem_append_right _ hc)
  have hzs : zs ≠ [] := by
    rintro rfl
    rw [List.append_nil, hl] at hlen
    exact Nat.lt_irrefl _ hlen
  have hdiv : value (ys ++ zs) / 10 ^ ((ys ++ zs).length - xs.length) = value ys := by
    rw [List.length_append, hl, Nat.add_sub_cancel_left, value_append, Nat.mul_comm,
      Nat.mul_add_div (Nat.pow_pos (by decide)), Nat.div_eq_of_lt (value_lt hrest), Nat.add_zero]
  rw [hdiv, Nat.le_iff_lt_or_eq, ← lt_iff hx hfirst hl.symm]
  rw [lt_append_iff hl.symm hzs]
  exact or_congr_right ⟨congrArg value, value_inj hx hfirst hl.symm⟩

/-- Whether two numbers come in the order of their decimals as text: they have as
many digits, or the shorter is at most the first digits of the longer. -/
def InTextOrder (m n : Nat) : Prop :=
  Nat.log 10 m = Nat.log 10 n ∨
    (Nat.log 10 m < Nat.log 10 n ∧ m ≤ n / 10 ^ (Nat.log 10 n - Nat.log 10 m)) ∨
    (Nat.log 10 n < Nat.log 10 m ∧ n ≤ m / 10 ^ (Nat.log 10 m - Nat.log 10 n))

instance (m n : Nat) : Decidable (InTextOrder m n) := inferInstanceAs (Decidable (_ ∨ _ ∨ _))

theorem inTextOrder_comm {m n : Nat} : InTextOrder m n ↔ InTextOrder n m := by
  unfold InTextOrder
  rw [eq_comm, @or_comm (Nat.log 10 m < Nat.log 10 n ∧ _)]

/-- Fewer digits are a smaller number than a numeral of more. -/
theorem value_lt_of_shorter {xs ys : List Char} (hx : AllDigits xs) (hy : Numeral ys) (hlen : xs.length < ys.length) :
    value xs < value ys :=
  calc value xs < 10 ^ xs.length := value_lt hx
    _ ≤ 10 ^ (ys.length - 1) := Nat.pow_le_pow_right (by decide) (by omega)
    _ ≤ value ys := hy.pow_le

theorem inTextOrder_shorter {xs ys : List Char} (hx : Numeral xs) (hy : Numeral ys) (hlen : xs.length < ys.length) :
    InTextOrder (value xs) (value ys) ↔ xs < ys := by
  have hpos : 0 < xs.length := List.length_pos_iff.mpr hx.leads
  have hsub : ys.length - 1 - (xs.length - 1) = ys.length - xs.length := by omega
  rw [lt_longer_iff hx.digits hy.digits hlen, InTextOrder, hx.log_value, hy.log_value, hsub]
  constructor
  · rintro (h | ⟨-, h⟩ | ⟨h, -⟩)
    · omega
    · exact h
    · omega
  · exact fun h => .inr (.inl ⟨by omega, h⟩)

/-- When two numerals compare as texts the way their numbers do. -/
theorem inTextOrder_iff {xs ys : List Char} (hx : Numeral xs) (hy : Numeral ys) :
    InTextOrder (value xs) (value ys) ↔ (value xs < value ys → xs < ys) ∧ (value ys < value xs → ys < xs) := by
  rcases Nat.lt_trichotomy xs.length ys.length with hlt | heq | hgt
  · have hvalue := value_lt_of_shorter hx.digits hy hlt
    rw [inTextOrder_shorter hx hy hlt]
    exact ⟨fun h => ⟨fun _ => h, fun h' => absurd h' (Nat.lt_asymm hvalue)⟩, fun h => h.1 hvalue⟩
  · have hlog : Nat.log 10 (value xs) = Nat.log 10 (value ys) := by rw [hx.log_value, hy.log_value, heq]
    exact iff_of_true (.inl hlog) ⟨(lt_iff hx.digits hy.digits heq).mpr, (lt_iff hy.digits hx.digits heq.symm).mpr⟩
  · have hvalue := value_lt_of_shorter hy.digits hx hgt
    rw [inTextOrder_comm, inTextOrder_shorter hy hx hgt]
    exact ⟨fun h => ⟨fun h' => absurd h' (Nat.lt_asymm hvalue), fun _ => h⟩, fun h => h.2 hvalue⟩

end Decimal
