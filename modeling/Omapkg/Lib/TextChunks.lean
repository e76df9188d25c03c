import Omapkg.Lib.Runes
import Omapkg.Lib.TextEncoder
/-!
# Texts cut into chunks

The bytes of a text in chunks of one length. Each chunk is read by itself, so a character
that two chunks share is lost, and what is read is the text only if there is none.
-/

namespace Utf

variable {α : Type} {k : Nat}

/-! ## Chunks -/

/-- The chunks of `k` elements, the last of what is left. -/
def chunks (k : Nat) (l : List α) : List (List α) :=
  if l = [] ∨ k = 0 then [] else l.take k :: chunks k (l.drop k)
termination_by l.length
decreasing_by
  rename_i h
  rw [not_or] at h
  have := List.length_pos_of_ne_nil h.1
  rw [List.length_drop]
  omega

theorem chunks_nil : chunks k ([] : List α) = [] := by
  rw [chunks, if_pos (.inl rfl)]

theorem chunks_of_ne (hk : 0 < k) {l : List α} (hl : l ≠ []) : chunks k l = l.take k :: chunks k (l.drop k) := by
  rw [chunks, if_neg fun h => h.elim hl (Nat.ne_of_gt hk)]

/-- Induction over the chunks of a list. -/
theorem chunks_induction (hk : 0 < k) {P : List α → Prop} (nil : P []) (chunk : ∀ l, l ≠ [] → P (l.drop k) → P l)
    (l : List α) : P l := by
  induction hn : l.length using Nat.strongRecOn generalizing l with
  | ind n ih =>
    by_cases hl : l = []
    · rw [hl]
      exact nil
    · have := List.length_pos_of_ne_nil hl
      refine chunk l hl (ih (l.drop k).length ?_ _ rfl)
      rw [List.length_drop]
      omega

theorem flatten_chunks (hk : 0 < k) (l : List α) : (chunks k l).flatten = l := by
  induction l using chunks_induction hk with
  | nil => rw [chunks_nil]; rfl
  | chunk l hl ih => rw [chunks_of_ne hk hl, List.flatten_cons, ih, List.take_append_drop]

theorem flatten_take_chunks (hk : 0 < k) (l : List α) (j : Nat) : ((chunks k l).take j).flatten = l.take (j * k) := by
  induction l using chunks_induction hk generalizing j with
  | nil => rw [chunks_nil, List.take_nil, List.take_nil]; rfl
  | chunk l hl ih =>
    cases j with
    | zero => simp
    | succ j =>
      rw [chunks_of_ne hk hl, List.take_succ_cons, List.flatten_cons, ih, Nat.succ_mul, Nat.add_comm, List.take_add]

theorem mem_chunks (hk : 0 < k) {l c : List α} (h : c ∈ chunks k l) : c ≠ [] ∧ c.length ≤ k ∧ ∀ x ∈ c, x ∈ l := by
  induction l using chunks_induction hk with
  | nil => rw [chunks_nil] at h; exact absurd h List.not_mem_nil
  | chunk l hl ih =>
    rw [chunks_of_ne hk hl] at h
    rcases List.mem_cons.mp h with rfl | h
    · refine ⟨?_, List.length_take_le _ _, fun x hx => List.mem_of_mem_take hx⟩
      rw [ne_eq, List.take_eq_nil_iff, not_or]
      exact ⟨Nat.ne_of_gt hk, hl⟩
    · obtain ⟨hne, hlen, hmem⟩ := ih h
      exact ⟨hne, hlen, fun x hx => List.mem_of_mem_drop (hmem x hx)⟩

theorem length_chunks_le_iff (hk : 0 < k) (l : List α) (n : Nat) : (chunks k l).length ≤ n ↔ l.length ≤ n * k := by
  induction l using chunks_induction hk generalizing n with
  | nil => rw [chunks_nil]; simp
  | chunk l hl ih =>
    have hpos := List.length_pos_of_ne_nil hl
    rw [chunks_of_ne hk hl, List.length_cons]
    cases n with
    | zero => omega
    | succ n =>
      rw [Nat.add_le_add_iff_right, ih, List.length_drop, Nat.succ_mul]
      omega

/-! ## Bytes that start no character -/

theorem decodeFrom_eq_runesFrom (skip : Nat) (bs : Bytes) : decodeFrom skip bs = (runesFrom skip bs).map Rune.char := by
  fun_induction decodeFrom skip bs with
  | case1 => simp [runesFrom]
  | case2 skip b bs ih => rw [runesFrom, ih]
  | case3 b bs c hc ih =>
    rw [runesFrom, hc]
    simp only [List.map_cons, ih]
  | case4 b bs hc ih =>
    rw [runesFrom, hc]
    simp only [List.map_cons, ih]

theorem decode_eq_runes (bs : Bytes) : decode bs = (runes bs).map Rune.char := decodeFrom_eq_runesFrom 0 bs

theorem decode_char (c : Char) (rest : Bytes) : decode (String.utf8EncodeChar c ++ rest) = c :: decode rest := by
  rw [decode_eq_runes, runes_char, List.map_cons, ← decode_eq_runes]

theorem decode_byte {b : UInt8} {bs : Bytes} (h : ∀ c, ¬String.utf8EncodeChar c <+: b :: bs) :
    decode (b :: bs) = '\uFFFD' :: decode bs := by
  rw [decode_eq_runes, runes_byte h, List.map_cons, ← decode_eq_runes]

/-- What is read of bytes takes no fewer bytes to write. -/
theorem length_le_encode_decode (bs : Bytes) : bs.length ≤ (encode (decode bs)).length ∧
    ((encode (decode bs)).length ≤ bs.length → encode (decode bs) = bs) := by
  have hcons (c : Char) (cs : List Char) : encode (c :: cs) = String.utf8EncodeChar c ++ encode cs := List.flatMap_cons
  induction bs using runes_induction with
  | nil => exact ⟨Nat.zero_le _, fun _ => rfl⟩
  | char c rest ih =>
    rw [decode_char, hcons, List.length_append, List.length_append]
    exact ⟨Nat.add_le_add_left ih.1 _, fun h => by rw [ih.2 (Nat.le_of_add_le_add_left h)]⟩
  | byte b bs h ih =>
    have hlen : (String.utf8EncodeChar '\uFFFD').length = 3 := by decide
    rw [decode_byte h, hcons, List.length_append, hlen, List.length_cons]
    exact ⟨by have := ih.1; omega, fun hle => by have := ih.1; omega⟩

theorem length_decode_le (bs : Bytes) : (decode bs).length ≤ bs.length := by
  induction bs using runes_induction with
  | nil => exact Nat.le_refl _
  | char c rest ih =>
    have hpos := List.length_pos_of_ne_nil (utf8EncodeChar_ne_nil c)
    rw [decode_char, List.length_cons, List.length_append]
    omega
  | byte b bs h ih =>
    rw [decode_byte h, List.length_cons, List.length_cons]
    omega

/-- A NUL is read of the byte zero only. -/
theorem zero_mem_of_decode {bs : Bytes} (h : '\x00' ∈ decode bs) : 0 ∈ bs := by
  induction bs using runes_induction with
  | nil => exact absurd h List.not_mem_nil
  | char c rest ih =>
    rw [decode_char] at h
    rcases List.mem_cons.mp h with hc | h
    · exact List.mem_append_left _ (zero_mem_utf8EncodeChar.mpr hc.symm)
    · exact List.mem_append_right _ (ih h)
  | byte b bs hb ih =>
    rw [decode_byte hb] at h
    rcases List.mem_cons.mp h with hc | h
    · exact absurd hc (by decide)
    · exact List.mem_cons_of_mem _ (ih h)

theorem zero_mem_encode {cs : List Char} (h : 0 ∈ encode cs) : '\x00' ∈ cs := by
  obtain ⟨c, hc, hzero⟩ := List.mem_flatMap.mp h
  exact zero_mem_utf8EncodeChar.mp hzero ▸ hc

theorem length_units_le (cs : List Char) : (units (String.ofList cs)).length ≤ 2 * cs.length := by
  rw [units, String.toList_ofList]
  induction cs with
  | nil => exact Nat.le_refl _
  | cons c cs ih =>
    have hunit : (encodeUnit c).length ≤ 2 := by
      unfold encodeUnit
      split <;> simp
    rw [List.flatMap_cons, List.length_append, List.length_cons]
    omega

/-! ## Texts in chunks -/

/-- Where a chunk ends, a character ends. -/
def EndsBetween (k : Nat) (cs : List Char) : Prop :=
  ∀ j, j * k ≤ (encode cs).length → ∃ pre, pre <+: cs ∧ (encode pre).length = j * k

/-- After a chunk of whole characters the rest ends between characters where the text did. -/
theorem EndsBetween.rest {pre cs : List Char} (h : EndsBetween k (pre ++ cs)) (hpre : (encode pre).length = k) :
    EndsBetween k cs := by
  intro j hj
  obtain ⟨p, hp, hlen⟩ := h (j + 1) (by rw [encode_append, List.length_append, hpre, Nat.succ_mul]; omega)
  rw [Nat.succ_mul] at hlen
  rcases List.prefix_or_prefix_of_prefix hp (List.prefix_append pre cs) with ⟨t, ht⟩ | ⟨q, rfl⟩
  · -- no more than the first chunk
    have hle : (encode p).length + (encode t).length = k := by rw [← List.length_append, ← encode_append, ht, hpre]
    exact ⟨[], List.nil_prefix, by simp only [encode, List.flatMap_nil, List.length_nil]; omega⟩
  · refine ⟨q, (List.prefix_append_right_inj pre).mp hp, ?_⟩
    rw [encode_append, List.length_append, hpre] at hlen
    omega

/-- Chunks that hold whole characters are read as they were written. -/
theorem EndsBetween.chunks (hk : 0 < k) {cs : List Char} (h : EndsBetween k cs) :
    (chunks k (encode cs)).flatMap decode = cs ∧ ∀ c ∈ chunks k (encode cs), ∃ ds, c = encode ds ∧ ∀ x ∈ ds, x ∈ cs := by
  induction hn : (encode cs).length using Nat.strongRecOn generalizing cs with
  | ind n ih =>
    by_cases hnil : encode cs = []
    · rw [hnil, chunks_nil]
      exact ⟨(decode_encode cs).symm.trans (by rw [hnil]; rfl) |>.symm, fun c hc => absurd hc List.not_mem_nil⟩
    · rw [chunks_of_ne hk hnil]
      by_cases hlast : (encode cs).length ≤ k
      · rw [List.take_of_length_le hlast, List.drop_of_length_le hlast, chunks_nil]
        refine ⟨by simp [decode_encode], fun c hc => ?_⟩
        obtain rfl := List.mem_singleton.mp hc
        exact ⟨cs, rfl, fun x hx => hx⟩
      · obtain ⟨pre, ⟨rest, rfl⟩, hpre⟩ := h 1 (by omega)
        rw [Nat.one_mul] at hpre
        have hsplit := encode_append pre rest
        have hlen := congrArg List.length hsplit
        rw [List.length_append] at hlen
        obtain ⟨hread, hchunks⟩ := ih _ (by omega) (h.rest hpre) rfl
        rw [hsplit, List.take_left' hpre, List.drop_left' hpre]
        refine ⟨by rw [List.flatMap_cons, decode_encode, hread], fun c hc => ?_⟩
        rcases List.mem_cons.mp hc with rfl | hc
        · exact ⟨pre, rfl, fun x hx => List.mem_append_left _ hx⟩
        · obtain ⟨ds, hds, hmem⟩ := hchunks c hc
          exact ⟨ds, hds, fun x hx => List.mem_append_right _ (hmem x hx)⟩

/-- Chunks that are read as a text as long as their bytes have lost nothing. -/
theorem encode_decode_chunks {l : List Bytes} (h : (encode (l.flatMap decode)).length = l.flatten.length) :
    ∀ c ∈ l, encode (decode c) = c := by
  have hle (l : List Bytes) : l.flatten.length ≤ (encode (l.flatMap decode)).length := by
    induction l with
    | nil => exact Nat.zero_le _
    | cons c l ih =>
      rw [List.flatten_cons, List.flatMap_cons, encode_append, List.length_append, List.length_append]
      exact Nat.add_le_add (length_le_encode_decode c).1 ih
  induction l with
  | nil => exact fun c hc => absurd hc List.not_mem_nil
  | cons c l ih =>
    rw [List.flatten_cons, List.flatMap_cons, encode_append, List.length_append, List.length_append] at h
    have hfirst := length_le_encode_decode c
    have hrest := hle l
    intro d hd
    rcases List.mem_cons.mp hd with rfl | hd
    · exact hfirst.2 (by omega)
    · exact ih (by omega) d hd

/-- A text is read chunk by chunk just where its chunks end between characters. -/
theorem chunks_decode_iff (hk : 0 < k) (cs : List Char) :
    (chunks k (encode cs)).flatMap decode = cs ↔ EndsBetween k cs := by
  refine ⟨fun h j hj => ?_, fun h => (h.chunks hk).1⟩
  have hwhole := encode_decode_chunks (l := chunks k (encode cs)) (by rw [h, flatten_chunks hk])
  have hpart : encode (((chunks k (encode cs)).take j).flatMap decode) = (encode cs).take (j * k) := by
    rw [← flatten_take_chunks hk]
    have hmem : ∀ c ∈ (chunks k (encode cs)).take j, encode (decode c) = c := fun c hc => hwhole c (List.mem_of_mem_take hc)
    generalize (chunks k (encode cs)).take j = l at hmem
    induction l with
    | nil => rfl
    | cons c l ih =>
      rw [List.flatMap_cons, encode_append, hmem c List.mem_cons_self, ih fun d hd => hmem d (List.mem_cons_of_mem _ hd),
        List.flatten_cons]
  refine ⟨((chunks k (encode cs)).take j).flatMap decode, ⟨((chunks k (encode cs)).drop j).flatMap decode, ?_⟩, ?_⟩
  · rw [← List.flatMap_append, List.take_append_drop, h]
  · rw [hpart, List.length_take, Nat.min_eq_left hj]

end Utf
