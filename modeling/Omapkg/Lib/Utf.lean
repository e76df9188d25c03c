import Mathlib.Data.List.Basic
import Mathlib.Tactic.Common
/-!
# UTF-8 and UTF-16

Strings as the programs of two languages hold them: bytes, decoded with
U+FFFD for each byte that starts no character, and UTF-16 units, where a
surrogate without its partner is a code point of its own.
-/

namespace Utf

/-! ## UTF-8 -/

abbrev Bytes := List UInt8

def encode (cs : List Char) : Bytes := cs.flatMap String.utf8EncodeChar

/-- Decoding, `skip` bytes into the next character. -/
def decodeFrom : Nat → Bytes → List Char
  | _, [] => []
  | skip + 1, _ :: bs => decodeFrom skip bs
  | 0, b :: bs =>
    match ((b :: bs).take 4).toByteArray.utf8DecodeChar? 0 with
    | some c => c :: decodeFrom (c.utf8Size - 1) bs
    | none => '\uFFFD' :: decodeFrom 0 bs

/-- The characters of a byte string; a byte that starts no character is
U+FFFD. -/
def decode (bs : Bytes) : List Char := decodeFrom 0 bs

theorem decodeFrom_append (xs ys : Bytes) : decodeFrom xs.length (xs ++ ys) = decodeFrom 0 ys := by
  induction xs with
  | nil => rfl
  | cons x xs ih => simpa [decodeFrom] using ih

theorem decode_encode (cs : List Char) : decode (encode cs) = cs := by
  induction cs with
  | nil => rfl
  | cons c cs ih =>
    have hlen : (String.utf8EncodeChar c).length = c.utf8Size := String.length_utf8EncodeChar c
    have hpos := c.utf8Size_pos
    have hle := c.utf8Size_le_four
    rcases he : String.utf8EncodeChar c with _ | ⟨b, bs⟩
    · rw [he] at hlen; simp only [List.length_nil] at hlen; omega
    · have htake : ((b :: bs) ++ encode cs).take 4 = (b :: bs) ++ (encode cs).take (4 - c.utf8Size) := by
        rw [List.take_append, ← he, List.take_of_length_le (by omega), hlen]
      have hd : (((b :: bs) ++ encode cs).take 4).toByteArray.utf8DecodeChar? 0 = some c := by
        rw [htake, List.toByteArray_append, ← he]
        exact ByteArray.utf8DecodeChar?_utf8EncodeChar_append
      have hb : bs.length = c.utf8Size - 1 := by
        rw [he, List.length_cons] at hlen; omega
      simp only [decode] at ih ⊢
      rw [encode, List.flatMap_cons, he, List.cons_append]
      rw [List.cons_append] at hd
      show decodeFrom 0 (b :: (bs ++ encode cs)) = c :: cs
      rw [decodeFrom, hd]
      simp only
      rw [← hb, decodeFrom_append, ih]

theorem encode_injective {cs ds : List Char} (h : encode cs = encode ds) : cs = ds := by
  rw [← decode_encode cs, h, decode_encode]

/-- A character of a byte string, with the bytes it was read from. -/
structure Rune where
  char : Char
  bytes : Bytes
  deriving DecidableEq

def runesFrom : Nat → Bytes → List Rune
  | _, [] => []
  | skip + 1, _ :: bs => runesFrom skip bs
  | 0, b :: bs =>
    match ((b :: bs).take 4).toByteArray.utf8DecodeChar? 0 with
    | some c => ⟨c, (b :: bs).take c.utf8Size⟩ :: runesFrom (c.utf8Size - 1) bs
    | none => ⟨'\uFFFD', [b]⟩ :: runesFrom 0 bs

/-- The characters of a byte string as `decode` gives them, none of its bytes
lost. -/
def runes (bs : Bytes) : List Rune := runesFrom 0 bs

def runeBytes (rs : List Rune) : Bytes := rs.flatMap Rune.bytes

/-! ## UTF-16 -/

/-- A string of UTF-16 units, surrogates in any order. -/
abbrev CodeUnits := List UInt16

/-- A code point of a UTF-16 string: a character or a surrogate alone. -/
inductive CodePoint where
  | scalar (c : Char)
  | lone (u : UInt16)
  deriving DecidableEq

def isHigh (u : UInt16) : Bool := 0xD800 ≤ u.toNat && u.toNat < 0xDC00

def isLow (u : UInt16) : Bool := 0xDC00 ≤ u.toNat && u.toNat < 0xE000

def pairChar (hi lo : UInt16) : Char :=
  Char.ofNat (0x10000 + (hi.toNat - 0xD800) * 0x400 + (lo.toNat - 0xDC00))

/-- The code points, `hi` being a high surrogate just read. -/
def codePointsFrom : Option UInt16 → CodeUnits → List CodePoint
  | none, [] => []
  | some h, [] => [.lone h]
  | none, u :: us =>
    if isHigh u then codePointsFrom (some u) us
    else if isLow u then .lone u :: codePointsFrom none us
    else .scalar (Char.ofNat u.toNat) :: codePointsFrom none us
  | some h, u :: us =>
    if isLow u then .scalar (pairChar h u) :: codePointsFrom none us
    else if isHigh u then .lone h :: codePointsFrom (some u) us
    else .lone h :: .scalar (Char.ofNat u.toNat) :: codePointsFrom none us

def codePoints (us : CodeUnits) : List CodePoint := codePointsFrom none us

/-- The lone code points are surrogates, and none that is high stands before
one that is low. -/
def WellPaired : List CodePoint → Prop
  | [] => True
  | .scalar _ :: cps => WellPaired cps
  | .lone u :: cps =>
    (isHigh u = true ∨ isLow u = true) ∧
      (isHigh u = true → ∀ v, cps.head? = some (.lone v) → isLow v = false) ∧ WellPaired cps

theorem not_low_of_high {u : UInt16} (h : isHigh u = true) : isLow u = false := by
  simp only [isHigh, isLow, Bool.and_eq_true, decide_eq_true_eq, Bool.and_eq_false_iff,
    decide_eq_false_iff_not] at *
  omega

attribute [local simp] codePointsFrom in
theorem head_codePointsFrom_some (h : UInt16) (us : CodeUnits) (v : UInt16)
    (hv : (codePointsFrom (some h) us).head? = some (.lone v)) : v = h := by
  rcases us with _ | ⟨u, us⟩
  · simp at hv; exact hv.symm
  · rw [codePointsFrom] at hv
    split_ifs at hv <;> simp at hv
    · exact hv.symm
    · exact hv.symm

theorem wellPaired_codePointsFrom (us : CodeUnits) : WellPaired (codePointsFrom none us) ∧
    ∀ h, isHigh h = true → WellPaired (codePointsFrom (some h) us) := by
  induction us with
  | nil => exact ⟨trivial, fun h hh => ⟨.inl hh, by simp, trivial⟩⟩
  | cons u us ih =>
    obtain ⟨ihn, ihs⟩ := ih
    constructor
    · rw [codePointsFrom]
      split_ifs with hu hl
      · exact ihs u hu
      · exact ⟨.inr hl, fun hh => absurd (not_low_of_high hh) (by simp [hl]), ihn⟩
      · exact ihn
    · intro h hh
      rw [codePointsFrom]
      split_ifs with hl hu
      · exact ihn
      · refine ⟨.inl hh, fun _ v hv => ?_, ihs u hu⟩
        rw [head_codePointsFrom_some u us v hv]
        exact not_low_of_high hu
      · exact ⟨.inl hh, by simp, ihn⟩

theorem wellPaired_codePoints (us : CodeUnits) : WellPaired (codePoints us) := (wellPaired_codePointsFrom us).1

theorem codePointsFrom_some_ne_nil (h : UInt16) (us : CodeUnits) : codePointsFrom (some h) us ≠ [] := by
  cases us with
  | nil => simp [codePointsFrom]
  | cons u us => rw [codePointsFrom]; split_ifs <;> simp

theorem codePoints_eq_nil {us : CodeUnits} (h : codePoints us = []) : us = [] := by
  cases us with
  | nil => rfl
  | cons u us =>
    rw [codePoints, codePointsFrom] at h
    split_ifs at h
    exact absurd h (codePointsFrom_some_ne_nil u us)

def encodeUnit (c : Char) : CodeUnits :=
  if c.toNat < 0x10000 then [UInt16.ofNat c.toNat]
  else [UInt16.ofNat (0xD800 + (c.toNat - 0x10000) / 0x400), UInt16.ofNat (0xDC00 + (c.toNat - 0x10000) % 0x400)]

/-- The units of a string of characters. -/
def units (s : String) : CodeUnits := s.toList.flatMap encodeUnit

/-- What a code point becomes in UTF-8, where a lone surrogate has no form. -/
def CodePoint.char : CodePoint → Char
  | .scalar c => c
  | .lone _ => '\uFFFD'

/-- The string another program reads from the units sent as UTF-8. -/
def toText (us : CodeUnits) : String := String.ofList ((codePoints us).map CodePoint.char)

theorem char_not_surrogate (c : Char) : c.toNat < 0xD800 ∨ (0xE000 ≤ c.toNat ∧ c.toNat < 0x110000) := by
  have h := c.valid
  simp only [UInt32.isValidChar, Nat.isValidChar, Char.toNat] at *
  omega

theorem codePointsFrom_single {u : UInt16} (hh : isHigh u = false) (hl : isLow u = false) (us : CodeUnits) :
    codePointsFrom none (u :: us) = .scalar (Char.ofNat u.toNat) :: codePointsFrom none us := by
  simp [codePointsFrom, hh, hl]

theorem codePointsFrom_pair {hi lo : UInt16} (hh : isHigh hi = true) (hl : isLow lo = true) (us : CodeUnits) :
    codePointsFrom none (hi :: lo :: us) = .scalar (pairChar hi lo) :: codePointsFrom none us := by
  simp [codePointsFrom, hh, hl]

theorem toNat_unit {n : Nat} (h : n < 0x10000) : (UInt16.ofNat n).toNat = n :=
  UInt16.toNat_ofNat_of_lt' h

theorem codePointsFrom_encodeUnit (c : Char) (us : CodeUnits) :
    codePointsFrom none (encodeUnit c ++ us) = .scalar c :: codePointsFrom none us := by
  have hv := char_not_surrogate c
  unfold encodeUnit
  split
  · rename_i h
    have hn : (UInt16.ofNat c.toNat).toNat = c.toNat := toNat_unit h
    have h1 : isHigh (UInt16.ofNat c.toNat) = false := by
      simp only [isHigh, hn, Bool.and_eq_false_iff, decide_eq_false_iff_not]; omega
    have h2 : isLow (UInt16.ofNat c.toNat) = false := by
      simp only [isLow, hn, Bool.and_eq_false_iff, decide_eq_false_iff_not]; omega
    rw [List.singleton_append, codePointsFrom_single h1 h2, hn, Char.ofNat_toNat]
  · rename_i h
    obtain ⟨v, hc⟩ : ∃ v, c.toNat = 0x10000 + v := ⟨c.toNat - 0x10000, by omega⟩
    have hq : v / 0x400 < 0x400 := by omega
    have hr : v % 0x400 < 0x400 := by omega
    have hhi : (UInt16.ofNat (0xD800 + v / 0x400)).toNat = 0xD800 + v / 0x400 := toNat_unit (by omega)
    have hlo : (UInt16.ofNat (0xDC00 + v % 0x400)).toNat = 0xDC00 + v % 0x400 := toNat_unit (by omega)
    have h1 : isHigh (UInt16.ofNat (0xD800 + v / 0x400)) = true := by
      simp only [isHigh, hhi, Bool.and_eq_true, decide_eq_true_eq]; omega
    have h2 : isLow (UInt16.ofNat (0xDC00 + v % 0x400)) = true := by
      simp only [isLow, hlo, Bool.and_eq_true, decide_eq_true_eq]; omega
    have hp : pairChar (UInt16.ofNat (0xD800 + v / 0x400)) (UInt16.ofNat (0xDC00 + v % 0x400)) = c := by
      have hsum : 0x10000 + (0xD800 + v / 0x400 - 0xD800) * 0x400 + (0xDC00 + v % 0x400 - 0xDC00) = c.toNat := by
        omega
      rw [pairChar, hhi, hlo, hsum, Char.ofNat_toNat]
    rw [hc, Nat.add_sub_cancel_left, List.cons_append, List.singleton_append, codePointsFrom_pair h1 h2, hp]

theorem codePoints_units (s : String) : codePoints (units s) = s.toList.map .scalar := by
  rw [codePoints, units]
  induction s.toList with
  | nil => rfl
  | cons c cs ih => rw [List.flatMap_cons, codePointsFrom_encodeUnit, ih, List.map_cons]

/-- A string of characters arrives as it was sent. -/
@[simp]
theorem toText_units (s : String) : toText (units s) = s := by
  rw [toText, codePoints_units, List.map_map]
  have : CodePoint.char ∘ CodePoint.scalar = id := rfl
  rw [this, List.map_id, String.ofList_toList]

theorem units_injective {s t : String} (h : units s = units t) : s = t := by
  rw [← toText_units s, h, toText_units]

@[simp]
theorem units_append (s t : String) : units (s ++ t) = units s ++ units t := by
  simp [units]

/-! ## ASCII -/

/-- Every unit is an ASCII character. -/
def IsAscii (us : CodeUnits) : Prop := ∀ u ∈ us, u.toNat < 128

instance : DecidablePred IsAscii := fun us => List.decidableBAll _ us

theorem toNat_ofNat {n : Nat} (hv : n.isValidChar) : (Char.ofNat n).toNat = n := by
  rw [Char.ofNat, dif_pos hv]
  rfl

theorem toNat_ascii {u : UInt16} (h : u.toNat < 128) : (Char.ofNat u.toNat).toNat = u.toNat :=
  toNat_ofNat (.inl (by omega))

theorem codePoints_ascii : ∀ {us : CodeUnits}, IsAscii us →
    codePoints us = us.map fun u => .scalar (Char.ofNat u.toNat)
  | [], _ => rfl
  | u :: us, h => by
    have hu : u.toNat < 128 := h u List.mem_cons_self
    have hh : isHigh u = false := by
      simp only [isHigh, Bool.and_eq_false_iff, decide_eq_false_iff_not]; omega
    have hl : isLow u = false := by
      simp only [isLow, Bool.and_eq_false_iff, decide_eq_false_iff_not]; omega
    have ih : codePoints us = _ := codePoints_ascii fun v hv => h v (List.mem_cons_of_mem _ hv)
    rw [codePoints] at ih ⊢
    rw [codePointsFrom_single hh hl, ih, List.map_cons]

theorem toText_ascii {us : CodeUnits} (h : IsAscii us) :
    (toText us).toList = us.map fun u => Char.ofNat u.toNat := by
  rw [toText, codePoints_ascii h, String.toList_ofList, List.map_map]
  rfl

/-- An ASCII string is sent without loss. -/
theorem units_toText {us : CodeUnits} (h : IsAscii us) : units (toText us) = us := by
  have hu : ∀ u ∈ us, encodeUnit (Char.ofNat u.toNat) = [u] := by
    intro u hu
    have hlt := h u hu
    rw [encodeUnit, toNat_ascii hlt, if_pos (by omega), UInt16.ofNat_toNat]
  rw [units, toText_ascii h, List.flatMap_map, List.flatMap_congr hu]
  simp

theorem toText_eq_iff {us : CodeUnits} (h : IsAscii us) (s : String) : toText us = s ↔ us = units s := by
  constructor
  · rintro rfl; exact (units_toText h).symm
  · rintro rfl; exact toText_units s

end Utf
