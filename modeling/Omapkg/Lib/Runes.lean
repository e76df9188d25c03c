import Omapkg.Lib.Utf
/-!
# Runes of a byte string

`runes` taken apart: a byte string begins with the bytes of a character or
with a byte that starts none. No byte is lost, a part of a text reads as it
did in the whole, and an ASCII byte never belongs to the character before it.
-/

namespace Utf

theorem toByteArray_injective {xs ys : Bytes} (h : xs.toByteArray = ys.toByteArray) : xs = ys := by
  have h' := congrArg (fun a : ByteArray => a.data.toList) h
  simpa using h'

/-- The character a byte string begins with, if it does with one. -/
theorem decodeChar_eq_some {bs : Bytes} {c : Char} :
    (bs.take 4).toByteArray.utf8DecodeChar? 0 = some c ↔ String.utf8EncodeChar c <+: bs := by
  have hlen : (String.utf8EncodeChar c).length = c.utf8Size := String.length_utf8EncodeChar c
  have hle := c.utf8Size_le_four
  constructor
  · intro h
    obtain ⟨l, hl⟩ := ByteArray.exists_of_utf8DecodeChar?_eq_some h
    have hl' : bs.take 4 = String.utf8EncodeChar c ++ l.data.toList := by
      apply toByteArray_injective
      rw [hl, List.toByteArray_append]
      congr 1
      ext1
      simp
    exact (hl' ▸ List.prefix_append _ _).trans (List.take_prefix 4 bs)
  · rintro ⟨rest, rfl⟩
    rw [List.take_append, List.take_of_length_le (by omega), List.toByteArray_append]
    exact ByteArray.utf8DecodeChar?_utf8EncodeChar_append

theorem utf8EncodeChar_ne_nil (c : Char) : String.utf8EncodeChar c ≠ [] := by
  intro h
  have hlen : (String.utf8EncodeChar c).length = c.utf8Size := String.length_utf8EncodeChar c
  have hpos := c.utf8Size_pos
  rw [h, List.length_nil] at hlen
  omega

theorem runesFrom_append (xs ys : Bytes) : runesFrom xs.length (xs ++ ys) = runesFrom 0 ys := by
  induction xs with
  | nil => rfl
  | cons x xs ih => simpa [runesFrom] using ih

@[simp]
theorem runes_nil : runes [] = [] := rfl

theorem runes_char (c : Char) (rest : Bytes) :
    runes (String.utf8EncodeChar c ++ rest) = ⟨c, String.utf8EncodeChar c⟩ :: runes rest := by
  have hlen : (String.utf8EncodeChar c).length = c.utf8Size := String.length_utf8EncodeChar c
  rcases he : String.utf8EncodeChar c with _ | ⟨b, bs⟩
  · exact absurd he (utf8EncodeChar_ne_nil c)
  · have hd : (((b :: bs) ++ rest).take 4).toByteArray.utf8DecodeChar? 0 = some c :=
      decodeChar_eq_some.mpr (he ▸ List.prefix_append _ _)
    have htake : ((b :: bs) ++ rest).take c.utf8Size = b :: bs := by
      rw [he] at hlen
      rw [List.take_append_of_le_length (by omega), List.take_of_length_le (by omega)]
    have hbs : bs.length = c.utf8Size - 1 := by
      rw [he, List.length_cons] at hlen
      omega
    rw [List.cons_append] at hd htake ⊢
    rw [runes, runesFrom, hd]
    simp only
    rw [htake, ← hbs, runesFrom_append, runes]

theorem runes_byte {b : UInt8} {bs : Bytes} (h : ∀ c, ¬String.utf8EncodeChar c <+: b :: bs) :
    runes (b :: bs) = ⟨'\uFFFD', [b]⟩ :: runes bs := by
  have hd : ((b :: bs).take 4).toByteArray.utf8DecodeChar? 0 = none := by
    cases hc : ((b :: bs).take 4).toByteArray.utf8DecodeChar? 0 with
    | none => rfl
    | some c => exact absurd (decodeChar_eq_some.mp hc) (h c)
  rw [runes, runesFrom, hd]
  rfl

/-- Induction over the characters of a byte string. -/
theorem runes_induction {P : Bytes → Prop} (nil : P [])
    (char : ∀ c rest, P rest → P (String.utf8EncodeChar c ++ rest))
    (byte : ∀ b bs, (∀ c, ¬String.utf8EncodeChar c <+: b :: bs) → P bs → P (b :: bs)) (bs : Bytes) : P bs := by
  induction hn : bs.length using Nat.strongRecOn generalizing bs with
  | ind n ih =>
    cases bs with
    | nil => exact nil
    | cons b bs =>
      by_cases h : ∃ c, String.utf8EncodeChar c <+: b :: bs
      · obtain ⟨c, rest, hrest⟩ := h
        rw [← hrest]
        apply char
        apply ih rest.length _ rest rfl
        have hpos := List.length_pos_of_ne_nil (utf8EncodeChar_ne_nil c)
        rw [← hn, ← hrest, List.length_append]
        omega
      · apply byte b bs (fun c hc => h ⟨c, hc⟩)
        apply ih bs.length _ bs rfl
        rw [← hn, List.length_cons]
        omega

@[simp]
theorem runeBytes_nil : runeBytes [] = [] := rfl

@[simp]
theorem runeBytes_cons (r : Rune) (rs : List Rune) : runeBytes (r :: rs) = r.bytes ++ runeBytes rs := rfl

@[simp]
theorem runeBytes_append (rs ts : List Rune) : runeBytes (rs ++ ts) = runeBytes rs ++ runeBytes ts := by
  simp [runeBytes]

/-- No byte is lost. -/
@[simp]
theorem runeBytes_runes (bs : Bytes) : runeBytes (runes bs) = bs := by
  induction bs using runes_induction with
  | nil => rfl
  | char c rest ih => rw [runes_char, runeBytes_cons, ih]
  | byte b bs h ih => rw [runes_byte h, runeBytes_cons, ih]; rfl

/-- A part of a text reads as it did in the whole. -/
theorem runes_runeBytes {bs : Bytes} {rs ts : List Rune} (h : runes bs = rs ++ ts) :
    runes (runeBytes rs) = rs := by
  induction bs using runes_induction generalizing rs with
  | nil =>
    obtain ⟨rfl, -⟩ := List.append_eq_nil_iff.mp h.symm
    rfl
  | char c rest ih =>
    cases rs with
    | nil => rfl
    | cons r rs =>
      rw [runes_char, List.cons_append, List.cons.injEq] at h
      rw [← h.1, runeBytes_cons, runes_char, ih h.2]
  | byte b bs hb ih =>
    cases rs with
    | nil => rfl
    | cons r rs =>
      rw [runes_byte hb, List.cons_append, List.cons.injEq] at h
      have hbs : bs = runeBytes rs ++ runeBytes ts := by rw [← runeBytes_append, ← h.2, runeBytes_runes]
      have hr : ∀ c, ¬String.utf8EncodeChar c <+: b :: runeBytes rs := by
        intro c hc
        exact hb c (hc.trans ⟨runeBytes ts, by rw [hbs]; rfl⟩)
      rw [← h.1, runeBytes_cons, List.singleton_append, runes_byte hr, ih h.2]

theorem runes_runeBytes_right {bs : Bytes} {rs ts : List Rune} (h : runes bs = rs ++ ts) :
    runes (runeBytes ts) = ts := by
  induction bs using runes_induction generalizing rs with
  | nil =>
    obtain ⟨-, rfl⟩ := List.append_eq_nil_iff.mp h.symm
    rfl
  | char c rest ih =>
    cases rs with
    | nil =>
      rw [List.nil_append] at h
      rw [← h, runeBytes_runes]
    | cons r rs =>
      rw [runes_char, List.cons_append, List.cons.injEq] at h
      exact ih h.2
  | byte b bs hb ih =>
    cases rs with
    | nil =>
      rw [List.nil_append] at h
      rw [← h, runeBytes_runes]
    | cons r rs =>
      rw [runes_byte hb, List.cons_append, List.cons.injEq] at h
      exact ih h.2

/-! ## ASCII bytes -/

theorem toNat_ofNat_byte {n : Nat} (h : n < 256) : (UInt8.ofNat n).toNat = n := UInt8.toNat_ofNat_of_lt' h

/-- The bytes of a character beyond ASCII are beyond ASCII. -/
theorem utf8EncodeChar_ascii {c : Char} {b : UInt8} (hb : b ∈ String.utf8EncodeChar c) (h : b.toNat < 128) :
    String.utf8EncodeChar c = [b] ∧ c.toNat = b.toNat := by
  have hc : c.val.toNat < 0x110000 := by
    have := char_not_surrogate c
    simp only [Char.toNat] at this
    omega
  revert hb
  unfold String.utf8EncodeChar
  simp only [Char.toNat]
  split
  · rename_i hsmall
    intro hb
    rw [List.mem_singleton] at hb
    rw [hb, toNat_ofNat_byte (by omega)]
    exact ⟨rfl, rfl⟩
  all_goals
    intro hb
    exfalso
    revert hb
    repeat' split
    all_goals
      intro hb
      simp only [List.mem_cons, List.not_mem_nil, or_false] at hb
      rcases hb with rfl | rfl | rfl | rfl <;> rw [toNat_ofNat_byte (by omega)] at h <;> omega

/-- An ASCII byte starts a character whatever stands before it. -/
theorem runes_append_ascii {b : UInt8} (hb : b.toNat < 128) (xs ys : Bytes) :
    runes (xs ++ b :: ys) = runes xs ++ runes (b :: ys) := by
  induction xs using runes_induction with
  | nil => rfl
  | char c rest ih => rw [List.append_assoc, runes_char, runes_char, ih, List.cons_append]
  | byte x bs h ih =>
    have hx : ∀ c, ¬String.utf8EncodeChar c <+: x :: (bs ++ b :: ys) := by
      intro c hc
      -- a character that begins with `x` and is none of `x :: bs` would have `b` in its tail
      rw [← List.cons_append] at hc
      rcases List.prefix_or_prefix_of_prefix hc (List.prefix_append (x :: bs) (b :: ys)) with hc' | ⟨t, ht⟩
      · exact h c hc'
      · cases t with
        | nil =>
          rw [List.append_nil] at ht
          exact h c (ht ▸ List.prefix_rfl)
        | cons y t =>
          rw [← ht, List.prefix_append_right_inj, List.cons_prefix_cons] at hc
          obtain ⟨rfl, -⟩ := hc
          have hmem : y ∈ String.utf8EncodeChar c := by rw [← ht]; simp
          rw [(utf8EncodeChar_ascii hmem hb).1] at ht
          simp at ht
    rw [List.cons_append, runes_byte hx, runes_byte h, ih, List.cons_append]

theorem runes_ascii {b : UInt8} (hb : b.toNat < 128) (ys : Bytes) :
    runes (b :: ys) = ⟨Char.ofNat b.toNat, [b]⟩ :: runes ys := by
  have hv : (Char.ofNat b.toNat).toNat = b.toNat := toNat_ofNat (.inl (by omega))
  have hc : String.utf8EncodeChar (Char.ofNat b.toNat) = [b] := by
    unfold String.utf8EncodeChar
    simp only [Char.toNat] at hv
    simp only [hv]
    rw [if_pos (by omega), UInt8.ofNat_toNat]
  have h := runes_char (Char.ofNat b.toNat) ys
  rwa [hc, List.singleton_append] at h

/-- The bytes of a rune are those of its character, or one that starts none. -/
theorem bytes_of_mem_runes {bs : Bytes} {r : Rune} (h : r ∈ runes bs) :
    r.bytes = String.utf8EncodeChar r.char ∨ r.char = '\uFFFD' := by
  induction bs using runes_induction with
  | nil => cases h
  | char c rest ih =>
    rw [runes_char] at h
    rcases List.mem_cons.mp h with rfl | h
    · exact .inl rfl
    · exact ih h
  | byte b bs hb ih =>
    rw [runes_byte hb] at h
    rcases List.mem_cons.mp h with rfl | h
    · exact .inr rfl
    · exact ih h

/-- The runes of an encoded text are its characters. -/
theorem runes_encode (cs : List Char) : runes (encode cs) = cs.map fun c => ⟨c, String.utf8EncodeChar c⟩ := by
  induction cs with
  | nil => rfl
  | cons c cs ih => rw [encode, List.flatMap_cons, runes_char, ← encode, ih, List.map_cons]

end Utf
