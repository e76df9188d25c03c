import Mathlib.Data.List.TakeWhile
import Omapkg.Lib.Utf
/-!
# UTF-16 strings as UTF-8 bytes

Encoding units to bytes, a surrogate alone as U+FFFD. A unit that is no
surrogate ends the encoding before it and starts the one behind it.
-/

namespace Utf

def encodeUnits (us : CodeUnits) : Bytes := encode (toText us).toList

/-- The string a decoder reads from bytes. -/
def decodeUnits (bs : Bytes) : CodeUnits := units (String.ofList (decode bs))

theorem decodeUnits_encodeUnits (us : CodeUnits) : decodeUnits (encodeUnits us) = units (toText us) := by
  rw [decodeUnits, encodeUnits, decode_encode, String.ofList_toList]

/-- What is decoded has no surrogate alone. -/
theorem units_toText_of_eq {us vs : CodeUnits} (h : units (toText us) = vs) : units (toText vs) = vs := by
  rw [← h, toText_units]

theorem encode_append (cs ds : List Char) : encode (cs ++ ds) = encode cs ++ encode ds := List.flatMap_append

theorem not_surrogate_of_lt {u : UInt16} (h : u.toNat < 0xD800) : isHigh u = false ∧ isLow u = false := by
  simp only [isHigh, isLow, Bool.and_eq_false_iff, decide_eq_false_iff_not]
  omega

/-- The code points before a unit that is no surrogate, it, and those behind it. -/
theorem codePointsFrom_append {u : UInt16} (hu : u.toNat < 0xD800) (us vs : CodeUnits) (o : Option UInt16) :
    codePointsFrom o (us ++ u :: vs) = codePointsFrom o us ++ .scalar (Char.ofNat u.toNat) :: codePointsFrom none vs := by
  obtain ⟨hh, hl⟩ := not_surrogate_of_lt hu
  induction us generalizing o with
  | nil => cases o <;> simp [codePointsFrom, hh, hl]
  | cons v us ih =>
    cases o with
    | none =>
      rw [List.cons_append, codePointsFrom, codePointsFrom, ih, ih]
      split_ifs <;> rfl
    | some h =>
      rw [List.cons_append, codePointsFrom, codePointsFrom, ih, ih]
      split_ifs <;> rfl

theorem encodeUnits_append {u : UInt16} (hu : u.toNat < 0xD800) (us vs : CodeUnits) :
    encodeUnits (us ++ u :: vs) = encodeUnits us ++ String.utf8EncodeChar (Char.ofNat u.toNat) ++ encodeUnits vs := by
  simp only [encodeUnits, toText, String.toList_ofList, codePoints, codePointsFrom_append hu, List.map_append,
    List.map_cons, encode_append, List.append_assoc]
  rfl

@[simp] theorem encodeUnits_nil : encodeUnits [] = [] := rfl

theorem encodeUnits_eq_nil {us : CodeUnits} (h : encodeUnits us = []) : us = [] := by
  apply codePoints_eq_nil
  rcases hcs : codePoints us with _ | ⟨p, ps⟩
  · rfl
  · rw [encodeUnits, toText, hcs, String.toList_ofList, List.map_cons, encode, List.flatMap_cons] at h
    have hlen := congrArg List.length (List.append_eq_nil_iff.mp h).1
    rw [String.length_utf8EncodeChar, List.length_nil] at hlen
    have := p.char.utf8Size_pos
    omega

/-! ## Units that are no surrogates -/

theorem isValidChar_of_not_surrogate {u : UInt16} (hh : isHigh u = false) (hl : isLow u = false) : u.toNat.isValidChar := by
  have hlt := u.toNat_lt
  simp only [isHigh, isLow, Bool.and_eq_false_iff, decide_eq_false_iff_not] at hh hl
  rcases Nat.lt_or_ge u.toNat 0xD800 with h | h
  · exact .inl h
  · exact .inr ⟨by omega, by omega⟩

theorem encodeUnit_ofNat {u : UInt16} (hh : isHigh u = false) (hl : isLow u = false) :
    encodeUnit (Char.ofNat u.toNat) = [u] := by
  rw [encodeUnit, toNat_ofNat (isValidChar_of_not_surrogate hh hl), if_pos u.toNat_lt, UInt16.ofNat_toNat]

/-- Units without surrogates are decoded as they were. -/
theorem units_toText_encodable {us : CodeUnits} (h : ∀ u ∈ us, isHigh u = false ∧ isLow u = false) :
    units (toText us) = us := by
  induction us with
  | nil => rfl
  | cons u us ih =>
    obtain ⟨⟨hh, hl⟩, hus⟩ := List.forall_mem_cons.mp h
    have ih := ih hus
    simp only [units, toText, String.toList_ofList, codePoints] at ih ⊢
    rw [codePointsFrom_single hh hl, List.map_cons, List.flatMap_cons, CodePoint.char, encodeUnit_ofNat hh hl, ih,
      List.singleton_append]

theorem units_toText_append {u : UInt16} (hu : u.toNat < 0xD800) (us vs : CodeUnits) :
    units (toText (us ++ u :: vs)) = units (toText us) ++ u :: units (toText vs) := by
  obtain ⟨hh, hl⟩ := not_surrogate_of_lt hu
  simp only [units, toText, String.toList_ofList, codePoints, codePointsFrom_append hu, List.map_append, List.map_cons,
    List.flatMap_append, List.flatMap_cons, CodePoint.char, encodeUnit_ofNat hh hl]
  rfl

/-- A unit is the code point of no other. -/
theorem ofNat_eq_iff {a u : UInt16} (ha : a.toNat < 0xD800) (hh : isHigh u = false) (hl : isLow u = false) :
    Char.ofNat a.toNat = Char.ofNat u.toNat ↔ a = u := by
  constructor
  · intro he
    have := congrArg Char.toNat he
    rw [toNat_ofNat (.inl ha), toNat_ofNat (isValidChar_of_not_surrogate hh hl)] at this
    exact UInt16.toNat_inj.mp this
  · rintro rfl
    rfl

theorem ofNat_ne_pairChar {a h l : UInt16} (ha : a.toNat < 0xD800) (hh : isHigh h = true) (hl : isLow l = true) :
    Char.ofNat a.toNat ≠ pairChar h l := by
  simp only [isHigh, isLow, Bool.and_eq_true, decide_eq_true_eq] at hh hl
  intro he
  have := congrArg Char.toNat he
  rw [toNat_ofNat (.inl ha), pairChar, toNat_ofNat (.inr ⟨by omega, by omega⟩)] at this
  omega

theorem ne_surrogate {a u : UInt16} (ha : a.toNat < 0xD800) (h : isHigh u = true ∨ isLow u = true) : a ≠ u := by
  rintro rfl
  obtain ⟨hh, hl⟩ := not_surrogate_of_lt ha
  rw [hh, hl] at h
  cases h <;> contradiction

theorem unit_mem_codePointsFrom {a : UInt16} (ha : a.toNat < 0xD800) (us : CodeUnits) :
    (.scalar (Char.ofNat a.toNat) ∈ codePointsFrom none us ↔ a ∈ us) ∧
      ∀ h, isHigh h = true → (.scalar (Char.ofNat a.toNat) ∈ codePointsFrom (some h) us ↔ a ∈ us) := by
  induction us with
  | nil => exact ⟨by simp [codePointsFrom], by simp [codePointsFrom]⟩
  | cons u us ih =>
    obtain ⟨ihn, ihs⟩ := ih
    constructor
    · rw [codePointsFrom, List.mem_cons]
      split_ifs with hh hl
      · rw [ihs u hh]
        exact ⟨.inr, fun h => h.resolve_left (ne_surrogate ha (.inl hh))⟩
      · rw [List.mem_cons, ihn]
        simp [ne_surrogate ha (.inr hl)]
      · rw [List.mem_cons, ihn, CodePoint.scalar.injEq, ofNat_eq_iff ha (by simpa using hh) (by simpa using hl)]
    · intro h hh
      rw [codePointsFrom, List.mem_cons]
      split_ifs with hl hu
      · rw [List.mem_cons, ihn, CodePoint.scalar.injEq]
        simp [ofNat_ne_pairChar ha hh hl, ne_surrogate ha (.inr hl)]
      · rw [List.mem_cons, ihs u hu]
        simp [ne_surrogate ha (.inl hu)]
      · rw [List.mem_cons, List.mem_cons, ihn, CodePoint.scalar.injEq,
          ofNat_eq_iff ha (by simpa using hu) (by simpa using hl)]
        simp

theorem unit_mem_codePoints {a : UInt16} (ha : a.toNat < 0xD800) {us : CodeUnits} :
    .scalar (Char.ofNat a.toNat) ∈ codePoints us ↔ a ∈ us := (unit_mem_codePointsFrom ha us).1

/-- Decoding what was encoded adds no unit but U+FFFD. -/
theorem unit_mem_units_toText {a : UInt16} (ha : a.toNat < 0xD800) {us : CodeUnits} (h : a ∈ units (toText us)) : a ∈ us := by
  rw [units, toText, String.toList_ofList] at h
  obtain ⟨c, hc, hu⟩ := List.mem_flatMap.mp h
  obtain ⟨p, hp, rfl⟩ := List.mem_map.mp hc
  have hchar : p.char = Char.ofNat a.toNat := by
    rw [encodeUnit] at hu
    split at hu
    · next hlt =>
      rw [List.mem_singleton] at hu
      rw [hu, toNat_unit hlt, Char.ofNat_toNat]
    · next hlt =>
      have hrange := char_not_surrogate p.char
      have hhigh : 0xD800 + (p.char.toNat - 0x10000) / 0x400 < 0x10000 := by omega
      have hlow : 0xDC00 + (p.char.toNat - 0x10000) % 0x400 < 0x10000 := by omega
      rcases List.mem_cons.mp hu with hu | hu
      · rw [hu, toNat_unit hhigh] at ha
        omega
      · rw [List.mem_singleton.mp hu, toNat_unit hlow] at ha
        omega
  cases p with
  | scalar c =>
    rw [CodePoint.char] at hchar
    rw [hchar] at hp
    exact (unit_mem_codePoints ha).mp hp
  | lone u =>
    have := congrArg Char.toNat hchar
    rw [toNat_ofNat (.inl ha)] at this
    have hfffd : (CodePoint.lone u).char.toNat = 0xFFFD := rfl
    omega

/-! ## ASCII -/

theorem utf8EncodeChar_of_ascii {c : Char} (h : c.toNat < 128) : String.utf8EncodeChar c = [UInt8.ofNat c.toNat] := by
  rw [String.utf8EncodeChar]
  exact if_pos (Nat.le_of_lt_succ h)

theorem encode_ascii {cs : List Char} (h : ∀ c ∈ cs, c.toNat < 128) : encode cs = cs.map fun c => UInt8.ofNat c.toNat := by
  induction cs with
  | nil => rfl
  | cons c cs ih =>
    rw [encode, List.flatMap_cons, utf8EncodeChar_of_ascii (h c List.mem_cons_self), List.map_cons, List.singleton_append]
    congr 1
    exact ih fun d hd => h d (List.mem_cons_of_mem _ hd)

theorem length_encodeUnits_ascii {us : CodeUnits} (h : IsAscii us) : (encodeUnits us).length = us.length := by
  have hchars : ∀ c ∈ (toText us).toList, c.toNat < 128 := by
    rw [toText_ascii h]
    rintro c hc
    obtain ⟨u, hu, rfl⟩ := List.mem_map.mp hc
    rw [toNat_ascii (h u hu)]
    exact h u hu
  rw [encodeUnits, encode_ascii hchars, toText_ascii h, List.length_map, List.length_map]

/-! ## The unit zero -/

theorem ofNat_byte_ne_zero {n : Nat} (h0 : 0 < n) (h : n < 256) : (0 : UInt8) ≠ UInt8.ofNat n := by
  intro he
  have hn : (UInt8.ofNat n).toNat = n := UInt8.toNat_ofNat_of_lt' h
  rw [← he] at hn
  have : (0 : UInt8).toNat = 0 := rfl
  omega

theorem zero_mem_utf8EncodeChar {c : Char} : 0 ∈ String.utf8EncodeChar c ↔ c = '\x00' := by
  constructor
  · intro h
    by_contra hc
    have hpos : 0 < c.val.toNat := by
      by_contra hzero
      exact hc (Char.toNat_inj.mp (show c.val.toNat = 0 by omega))
    revert h
    fun_cases String.utf8EncodeChar c <;> simp only [List.mem_cons, List.not_mem_nil, or_false, imp_false, not_or]
    · exact ofNat_byte_ne_zero hpos (by omega)
    · exact ⟨ofNat_byte_ne_zero (by omega) (by omega), ofNat_byte_ne_zero (by omega) (by omega)⟩
    · exact ⟨ofNat_byte_ne_zero (by omega) (by omega), ofNat_byte_ne_zero (by omega) (by omega),
        ofNat_byte_ne_zero (by omega) (by omega)⟩
    · exact ⟨ofNat_byte_ne_zero (by omega) (by omega), ofNat_byte_ne_zero (by omega) (by omega),
        ofNat_byte_ne_zero (by omega) (by omega), ofNat_byte_ne_zero (by omega) (by omega)⟩
  · rintro rfl
    decide

/-- A zero byte is a zero unit. -/
theorem zero_mem_encodeUnits {us : CodeUnits} : 0 ∈ encodeUnits us ↔ 0 ∈ us := by
  rw [← unit_mem_codePoints (show (0 : UInt16).toNat < 0xD800 by decide), encodeUnits, toText, String.toList_ofList, encode, List.mem_flatMap]
  constructor
  · rintro ⟨c, hc, hzero⟩
    obtain ⟨p, hp, rfl⟩ := List.mem_map.mp hc
    have hnul := zero_mem_utf8EncodeChar.mp hzero
    cases p with
    | scalar c => exact hnul ▸ hp
    | lone u => exact absurd hnul (show '\uFFFD' ≠ '\x00' by decide)
  · intro h
    exact ⟨'\x00', List.mem_map.mpr ⟨_, h, rfl⟩, by decide⟩

/-! ## Up to the first zero -/

section

variable {α : Type} [DecidableEq α] {x : α} {xs : List α}

theorem decide_ne (h : x ∉ xs) : ∀ y ∈ xs, decide (y ≠ x) = true := by
  intro y hy
  rw [decide_eq_true_eq]
  rintro rfl
  exact h hy

theorem takeWhile_ne_self (h : x ∉ xs) : xs.takeWhile (· ≠ x) = xs := List.takeWhile_eq_self_iff.mpr (decide_ne h)

theorem takeWhile_ne_append (h : x ∉ xs) (ys : List α) : (xs ++ x :: ys).takeWhile (· ≠ x) = xs := by
  rw [List.takeWhile_append_of_pos (decide_ne h), List.takeWhile_cons_of_neg (by simp), List.append_nil]

end

/-- The bytes up to the first zero are those of the units up to the first zero. -/
theorem takeWhile_encodeUnits (us : CodeUnits) :
    (encodeUnits us).takeWhile (· ≠ 0) = encodeUnits (us.takeWhile (· ≠ 0)) := by
  by_cases h : 0 ∈ us
  · obtain ⟨as, bs, rfl, has⟩ := List.eq_append_cons_of_mem h
    have hbytes : encodeUnits (as ++ 0 :: bs) = encodeUnits as ++ 0 :: encodeUnits bs := by
      rw [encodeUnits_append (by decide), List.append_assoc]
      rfl
    rw [hbytes, takeWhile_ne_append has, takeWhile_ne_append (mt zero_mem_encodeUnits.mp has)]
  · rw [takeWhile_ne_self h, takeWhile_ne_self (mt zero_mem_encodeUnits.mp h)]

end Utf
