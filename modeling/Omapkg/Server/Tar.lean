import Mathlib.Algebra.GroupWithZero.Nat
import Omapkg.Lib.Blit
import Omapkg.Lib.Fallible
import Omapkg.Lib.TextEncoder
/-!
# The tar archive of a repository database

The encoder of `repository.ts`, and a decoder that goes by the ustar rules. What
was written comes back, unless a path does not survive its header field.
-/

namespace Omapkg.Server.Tar

open Utf Blit Fallible

/-- What the encoder throws. -/
inductive TarThrow where
  | fieldTooLong
  | pathTooLong
  | offsetOutOfBounds
  deriving DecidableEq

def TarThrow.text : TarThrow → String
  | .fieldTooLong => "tar field too long"
  | .pathTooLong => "repository entry path too long"
  | .offsetOutOfBounds => "offset is out of bounds"

structure Entry where
  path : CodeUnits
  body : Bytes
  deriving DecidableEq

/-! ## The encoder -/

def padStart (cs : List Char) (width : Nat) : List Char := List.replicate (width - cs.length) '0' ++ cs

def octal (value width : Nat) : List Char := padStart (Nat.toDigits 8 value) (width - 1) ++ ['\x00']

def checksum (value : Nat) : List Char := padStart (Nat.toDigits 8 value) 6 ++ ['\x00', ' ']

/-- `target.set(bytes, offset)`. -/
def set (target bytes : Bytes) (offset : Nat) : Except TarThrow Bytes :=
  if target.length < offset + bytes.length then .error .offsetOutOfBounds else .ok (blit target bytes offset)

def ascii (target : Bytes) (offset width : Nat) (value : CodeUnits) : Except TarThrow Bytes :=
  let bytes := encodeUnits value
  if width < bytes.length then .error .fieldTooLong else set target bytes offset

def lastIndexOf (u : UInt16) : CodeUnits → Option Nat
  | [] => none
  | v :: us =>
    match lastIndexOf u us with
    | some i => some (i + 1)
    | none => if v = u then some 0 else none

/-- The prefix and the name of a path, at its last slash unless that is its first character. -/
def splitPath (path : CodeUnits) : CodeUnits × CodeUnits :=
  match lastIndexOf 0x2F path with
  | some (i + 1) => (path.take (i + 1), path.drop (i + 2))
  | _ => ([], path)

def sum (header : Bytes) : Nat := (header.map UInt8.toNat).sum

def text (cs : List Char) : CodeUnits := units (String.ofList cs)

def tarHeader (path : CodeUnits) (size : Nat) : Except TarThrow Bytes := do
  let (dir, name) := splitPath path
  if 100 < name.length ∨ 155 < dir.length then .error .pathTooLong else do
  let header ← ascii (List.replicate 512 0) 0 100 name
  let header ← ascii header 100 8 (text (octal 0o644 8))
  let header ← ascii header 108 8 (text (octal 0 8))
  let header ← ascii header 116 8 (text (octal 0 8))
  let header ← ascii header 124 12 (text (octal size 12))
  let header ← ascii header 136 12 (text (octal 0 12))
  let header := blit header (List.replicate 8 0x20) 148
  let header := blit header [0x30] 156
  let header ← ascii header 257 6 (text "ustar\x00".toList)
  let header ← ascii header 263 2 (text "00".toList)
  let header ← ascii header 345 155 dir
  ascii header 148 8 (text (checksum (sum header)))

/-- The bytes of a body with what fills its last block. -/
def blocks (length : Nat) : Nat := (length + 511) / 512 * 512

/-- The loop of `tar`. -/
def write : List Entry → Bytes → Nat → Except TarThrow Bytes
  | [], result, _ => .ok result
  | entry :: rest, result, offset => do
    let header ← tarHeader entry.path entry.body.length
    let result ← set result header offset
    let result ← set result entry.body (offset + 512)
    write rest result (offset + 512 + blocks entry.body.length)

def tar (entries : List Entry) : Except TarThrow Bytes :=
  let size := entries.foldl (fun total entry => total + 512 + blocks entry.body.length) 1024
  write entries (List.replicate size 0) 0

/-! ## The decoder -/

/-- A text field, up to a NUL or its end. -/
def readText (field : Bytes) : Bytes := field.takeWhile (· ≠ 0)

def isOctal (b : UInt8) : Bool := 0x30 ≤ b.toNat && b.toNat < 0x38

/-- A number field, octal digits up to a NUL, a space or its end. -/
def readOctal (field : Bytes) : Option Nat :=
  let digits := field.takeWhile fun b => b ≠ 0 && b ≠ 0x20
  if digits.all isOctal then some (Nat.ofDigitChars 8 (digits.map fun b => Char.ofNat b.toNat) 0) else none

/-- The sum of a header, its own field taken as spaces, is the one it states. -/
def checksumValid (header : Bytes) : Bool :=
  readOctal (slice header 148 8) = some (sum (blit header (List.replicate 8 0x20) 148))

/-- The path and size of a regular file's header. -/
def readHeader (header : Bytes) : Option (CodeUnits × Nat) := do
  if checksumValid header && slice header 156 1 = [0x30] && slice header 257 6 = [0x75, 0x73, 0x74, 0x61, 0x72, 0] &&
    slice header 263 2 = [0x30, 0x30] then
    let size ← readOctal (slice header 124 12)
    let name := readText (slice header 0 100)
    let dir := readText (slice header 345 155)
    some (decodeUnits (if dir = [] then name else dir ++ 0x2F :: name), size)
  else none

/-- The entries up to two zero blocks; a body is followed by zeros to the end of its block. -/
def read : Nat → Bytes → Option (List Entry)
  | 0, _ => none
  | fuel + 1, bytes =>
    if bytes.take 1024 = List.replicate 1024 0 then some []
    else do
      let (path, size) ← readHeader (bytes.take 512)
      let rest := bytes.drop 512
      if rest.length < blocks size then none
      else if slice rest size (blocks size - size) = List.replicate (blocks size - size) 0 then do
        let entries ← read fuel (rest.drop (blocks size))
        some (⟨path, rest.take size⟩ :: entries)
      else none

def untar (bytes : Bytes) : Option (List Entry) := read (bytes.length + 1) bytes

/-! ## Fields -/

def zeros (n : Nat) : Bytes := List.replicate n 0

theorem set_ok {t t' bs : Bytes} {o : Nat} : set t bs o = .ok t' ↔ o + bs.length ≤ t.length ∧ t' = blit t bs o := by
  rw [set, guard_ok, Except.ok.injEq, Nat.not_lt, eq_comm (a := t')]

theorem ascii_ok {t t' : Bytes} {o w : Nat} {value : CodeUnits} : ascii t o w value = .ok t' ↔
    (encodeUnits value).length ≤ w ∧ o + (encodeUnits value).length ≤ t.length ∧ t' = blit t (encodeUnits value) o := by
  rw [ascii, guard_ok, set_ok, Nat.not_lt]

theorem ascii_wrote {t t' : Bytes} {o w : Nat} {value : CodeUnits} (h : ascii t o w value = .ok t') :
    Wrote t t' o w (encodeUnits value) := by
  obtain ⟨hw, ht, rfl⟩ := ascii_ok.mp h
  exact wrote_blit ht hw

theorem encodeUnits_text (cs : List Char) : encodeUnits (text cs) = encode cs := by
  rw [encodeUnits, text, toText_units, String.toList_ofList]

/-! ## Numbers -/

def IsOctalDigit (c : Char) : Prop := 0x30 ≤ c.toNat ∧ c.toNat < 0x38

theorem isOctalDigit_digitChar {n : Nat} (h : n < 8) : IsOctalDigit n.digitChar := by
  revert h n
  unfold IsOctalDigit
  decide

theorem isOctalDigit_toDigits {n : Nat} {c : Char} (h : c ∈ Nat.toDigits 8 n) : IsOctalDigit c := by
  induction n using Nat.strongRecOn with
  | ind n ih =>
    rw [Nat.toDigits_eq_if (by decide)] at h
    split at h
    · next hn =>
      rw [List.mem_singleton.mp h]
      exact isOctalDigit_digitChar hn
    · rcases List.mem_append.mp h with h | h
      · exact ih _ (by omega) h
      · rw [List.mem_singleton.mp h]
        exact isOctalDigit_digitChar (by omega)

theorem isOctalDigit_padStart {n width : Nat} {c : Char} (h : c ∈ padStart (Nat.toDigits 8 n) width) :
    IsOctalDigit c := by
  rcases List.mem_append.mp h with h | h
  · rw [(List.mem_replicate.mp h).2]
    exact ⟨by decide, by decide⟩
  · exact isOctalDigit_toDigits h

theorem ofDigitChars_padStart (n width : Nat) : Nat.ofDigitChars 8 (padStart (Nat.toDigits 8 n) width) 0 = n := by
  rw [padStart, Nat.ofDigitChars_append, Nat.ofDigitChars_replicate_zero, Nat.mul_zero,
    Nat.ofDigitChars_toDigits (by decide) (by decide)]

theorem toNat_digitByte {c : Char} (h : IsOctalDigit c) : (UInt8.ofNat c.toNat).toNat = c.toNat :=
  UInt8.toNat_ofNat_of_lt' (show c.toNat < 256 from Nat.lt_trans h.2 (by decide))

/-- Octal digits are read up to what ends them. -/
theorem readOctal_encode {cs : List Char} (hcs : ∀ c ∈ cs, IsOctalDigit c) {z : UInt8} (hz : z = 0 ∨ z = 0x20)
    (rest : Bytes) : readOctal (encode cs ++ z :: rest) = some (Nat.ofDigitChars 8 cs 0) := by
  have hbytes : encode cs = cs.map fun c => UInt8.ofNat c.toNat := encode_ascii fun c hc => by have := (hcs c hc).2; omega
  have htext : (cs.map fun c => Char.ofNat (UInt8.ofNat c.toNat).toNat) = cs := by
    conv_rhs => rw [← List.map_id cs]
    refine List.map_congr_left fun c hc => ?_
    rw [toNat_digitByte (hcs c hc), Char.ofNat_toNat, id_eq]
  have hoctal : ∀ b ∈ encode cs, isOctal b = true := by
    rw [hbytes]
    rintro b hb
    obtain ⟨c, hc, rfl⟩ := List.mem_map.mp hb
    obtain ⟨hlow, hhigh⟩ := hcs c hc
    rw [isOctal, toNat_digitByte (hcs c hc), Bool.and_eq_true, decide_eq_true_eq, decide_eq_true_eq]
    exact ⟨hlow, hhigh⟩
  have hdigits : ∀ b ∈ encode cs, (b ≠ 0 && b ≠ 0x20) = true := by
    intro b hb
    have hb := hoctal b hb
    rw [Bool.and_eq_true, decide_eq_true_eq, decide_eq_true_eq]
    constructor <;> (rintro rfl; revert hb; decide)
  have hall : (encode cs).all isOctal = true := List.all_eq_true.mpr hoctal
  have hread : (encode cs ++ z :: rest).takeWhile (fun b => b ≠ 0 && b ≠ 0x20) = encode cs := by
    rw [List.takeWhile_append_of_pos hdigits, List.takeWhile_cons_of_neg (by rcases hz with rfl | rfl <;> decide),
      List.append_nil]
  rw [readOctal, hread, if_pos hall, hbytes, List.map_map]
  exact congrArg (fun ds => some (Nat.ofDigitChars 8 ds 0)) htext

theorem readOctal_number (n width : Nat) (z : Char) (cs : List Char) (hz : z = '\x00' ∨ z = ' ') (rest : Bytes) :
    readOctal (encode (padStart (Nat.toDigits 8 n) width ++ z :: cs) ++ rest) = some n := by
  have hend : encode (z :: cs) = UInt8.ofNat z.toNat :: encode cs := by
    rw [encode, List.flatMap_cons, utf8EncodeChar_of_ascii (by rcases hz with rfl | rfl <;> decide)]
    rfl
  rw [encode_append, hend, List.append_assoc, List.cons_append,
    readOctal_encode (fun c => isOctalDigit_padStart) (by rcases hz with rfl | rfl <;> decide), ofDigitChars_padStart]

/-! ## Headers -/

theorem sum_le (header : Bytes) : sum header ≤ 255 * header.length := by
  induction header with
  | nil => simp [sum]
  | cons b bs ih =>
    have hb := b.toNat_lt
    simp only [sum, List.map_cons, List.sum_cons, List.length_cons] at ih ⊢
    omega

/-- A number that fits its digits has all of them. -/
theorem length_number {n width : Nat} {cs : List Char} (hcs : ∀ c ∈ cs, c.toNat < 128) (hwidth : 0 < width)
    (h : n < 8 ^ width) : (encode (padStart (Nat.toDigits 8 n) width ++ cs)).length = width + cs.length := by
  have hascii : ∀ c ∈ padStart (Nat.toDigits 8 n) width ++ cs, c.toNat < 128 := by
    intro c hc
    rcases List.mem_append.mp hc with hc | hc
    · have := (isOctalDigit_padStart hc).2
      omega
    · exact hcs c hc
  have hle : (Nat.toDigits 8 n).length ≤ width := (Nat.length_toDigits_le_iff (by decide) hwidth).mpr h
  rw [encode_ascii hascii]
  simp only [padStart, List.length_map, List.length_append, List.length_replicate]
  omega

theorem length_checksum {n : Nat} (h : n < 8 ^ 6) : (encodeUnits (text (checksum n))).length = 8 := by
  rw [encodeUnits_text, checksum, length_number (by simp) (by decide) h]
  rfl

theorem length_octal {n width : Nat} (hwidth : 2 ≤ width) (h : n < 8 ^ (width - 1)) :
    (encodeUnits (text (octal n width))).length = width := by
  rw [encodeUnits_text, octal, length_number (by simp) (by omega) h, List.length_singleton]
  omega

/-- What a header holds. -/
structure HeaderOf (path : CodeUnits) (size : Nat) (header : Bytes) : Prop where
  length : header.length = 512
  name : readText (slice header 0 100) = readText (encodeUnits (splitPath path).2)
  dir : readText (slice header 345 155) = readText (encodeUnits (splitPath path).1)
  size : readOctal (slice header 124 12) = some size
  flag : slice header 156 1 = [0x30]
  magic : slice header 257 6 = [0x75, 0x73, 0x74, 0x61, 0x72, 0]
  version : slice header 263 2 = [0x30, 0x30]
  checksum : checksumValid header = true

theorem readText_append_zeros (bs : Bytes) (n : Nat) : readText (bs ++ zeros n) = readText bs := by
  have hzeros : (zeros n).takeWhile (· ≠ 0) = [] := by simp [zeros]
  rw [readText, readText, List.takeWhile_append, hzeros, List.append_nil]
  split
  · next h =>
    exact ((List.takeWhile_prefix _).eq_of_length h).symm
  · rfl

theorem tarHeader_spec {path : CodeUnits} {size : Nat} {header : Bytes} (h : tarHeader path size = .ok header) :
    HeaderOf path size header := by
  unfold tarHeader at h
  rcases hsplit : splitPath path with ⟨dir, file⟩
  rw [hsplit] at h
  obtain ⟨-, h⟩ := guard_ok.mp h
  obtain ⟨h₁, hname, h⟩ := bind_ok.mp h
  obtain ⟨h₂, hmode, h⟩ := bind_ok.mp h
  obtain ⟨h₃, huid, h⟩ := bind_ok.mp h
  obtain ⟨h₄, hgid, h⟩ := bind_ok.mp h
  obtain ⟨h₅, hsize, h⟩ := bind_ok.mp h
  obtain ⟨h₆, hmtime, h⟩ := bind_ok.mp h
  obtain ⟨h₇, hmagic, h⟩ := bind_ok.mp h
  obtain ⟨h₈, hversion, h⟩ := bind_ok.mp h
  obtain ⟨h₉, hdir, h⟩ := bind_ok.mp h
  have w₁ := ascii_wrote hname
  have w₂ := ascii_wrote hmode
  have w₃ := ascii_wrote huid
  have w₄ := ascii_wrote hgid
  have w₅ := ascii_wrote hsize
  have w₆ := ascii_wrote hmtime
  have l₆ : h₆.length = 512 := by rw [w₆.length, w₅.length, w₄.length, w₃.length, w₂.length, w₁.length, List.length_replicate]
  have wₛ : Wrote h₆ _ 148 8 (List.replicate 8 0x20) := wrote_blit (by rw [l₆]; decide) (by decide)
  have wₜ : Wrote (blit h₆ (List.replicate 8 0x20) 148) _ 156 1 [0x30] := wrote_blit (by rw [wₛ.length, l₆]; decide) (by decide)
  have w₇ := ascii_wrote hmagic
  have w₈ := ascii_wrote hversion
  have w₉ := ascii_wrote hdir
  have l₉ : h₉.length = 512 := by rw [w₉.length, w₈.length, w₇.length, wₜ.length, wₛ.length, l₆]
  obtain ⟨-, hfits, rfl⟩ := ascii_ok.mp h
  have w := ascii_wrote h
  have hsum : sum h₉ < 8 ^ 6 := by
    have := sum_le h₉
    omega
  have hwidth : (encodeUnits (text (checksum (sum h₉)))).length = 8 :=
    length_checksum hsum
  have hspaces : slice h₉ 148 8 = List.replicate 8 0x20 := by
    simp (disch := omega) only [w₉.frame, w₈.frame, w₇.frame, wₜ.frame, wₛ.held]
    rfl
  have hblank : blit (blit h₉ (encodeUnits (text (checksum (sum h₉)))) 148) (List.replicate 8 0x20) 148 = h₉ := by
    rw [blit_blit hfits (by rw [hwidth]; rfl), ← hspaces, blit_slice (by rw [l₉]; decide)]
  refine ⟨by rw [w.length, l₉], ?_, ?_, ?_, ?_, ?_, ?_, ?_⟩
  · have hle : (encodeUnits file).length ≤ 100 := (ascii_ok.mp hname).1
    simp (disch := omega) only [w.frame, w₉.frame, w₈.frame, w₇.frame, wₜ.frame, wₛ.frame, w₆.frame, w₅.frame, w₄.frame,
      w₃.frame, w₂.frame, w₁.held, slice_replicate, hsplit]
    exact readText_append_zeros _ _
  · have hle : (encodeUnits dir).length ≤ 155 := (ascii_ok.mp hdir).1
    simp (disch := omega) only [w.frame, w₉.held, w₈.frame, w₇.frame, wₜ.frame, wₛ.frame, w₆.frame, w₅.frame, w₄.frame,
      w₃.frame, w₂.frame, w₁.frame, slice_replicate, hsplit]
    exact readText_append_zeros _ _
  · simp (disch := omega) only [w.frame, w₉.frame, w₈.frame, w₇.frame, wₜ.frame, wₛ.frame, w₆.frame, w₅.held]
    rw [encodeUnits_text]
    exact readOctal_number _ _ _ _ (.inl rfl) _
  · simp (disch := omega) only [w.frame, w₉.frame, w₈.frame, w₇.frame, wₜ.held]
    rfl
  · simp (disch := omega) only [w.frame, w₉.frame, w₈.frame, w₇.held]
    rw [encodeUnits_text]
    rfl
  · simp (disch := omega) only [w.frame, w₉.frame, w₈.held]
    rw [encodeUnits_text]
    rfl
  · rw [checksumValid, decide_eq_true_eq, hblank, w.held, encodeUnits_text]
    exact readOctal_number _ _ _ _ (.inl rfl) _

theorem ascii_accepts {t : Bytes} {o w : Nat} {value : CodeUnits} (hw : (encodeUnits value).length ≤ w)
    (ht : o + w ≤ t.length) : ∃ t', ascii t o w value = .ok t' ∧ t'.length = t.length := by
  refine ⟨_, ascii_ok.mpr ⟨hw, by omega, rfl⟩, ?_⟩
  exact length_blit (by omega)

/-- A header is written where its path and its size fit their fields. -/
theorem tarHeader_accepts {path : CodeUnits} {size : Nat} (hname : (splitPath path).2.length ≤ 100)
    (hdir : (splitPath path).1.length ≤ 155) (hnameBytes : (encodeUnits (splitPath path).2).length ≤ 100)
    (hdirBytes : (encodeUnits (splitPath path).1).length ≤ 155) (hsize : size < 8 ^ 11) :
    ∃ header, tarHeader path size = .ok header := by
  rcases hsplit : splitPath path with ⟨dir, file⟩
  rw [hsplit] at hname hdir hnameBytes hdirBytes
  have hmode : (encodeUnits (text (octal 0o644 8))).length ≤ 8 := (length_octal (by decide) (by decide)).le
  have hzero (w : Nat) (hw : 2 ≤ w) : (encodeUnits (text (octal 0 w))).length ≤ w :=
    (length_octal hw (Nat.pow_pos (by decide))).le
  have hsized : (encodeUnits (text (octal size 12))).length ≤ 12 := (length_octal (by decide) hsize).le
  have l₀ : (List.replicate 512 (0 : UInt8)).length = 512 := List.length_replicate
  obtain ⟨h₁, e₁, l₁⟩ := ascii_accepts hnameBytes (show 0 + 100 ≤ (List.replicate 512 (0 : UInt8)).length by rw [l₀]; decide)
  obtain ⟨h₂, e₂, l₂⟩ := ascii_accepts hmode (show 100 + 8 ≤ h₁.length by rw [l₁, l₀]; decide)
  obtain ⟨h₃, e₃, l₃⟩ := ascii_accepts (hzero 8 (by decide)) (show 108 + 8 ≤ h₂.length by rw [l₂, l₁, l₀]; decide)
  obtain ⟨h₄, e₄, l₄⟩ := ascii_accepts (hzero 8 (by decide)) (show 116 + 8 ≤ h₃.length by rw [l₃, l₂, l₁, l₀]; decide)
  obtain ⟨h₅, e₅, l₅⟩ := ascii_accepts hsized (show 124 + 12 ≤ h₄.length by rw [l₄, l₃, l₂, l₁, l₀]; decide)
  obtain ⟨h₆, e₆, l₆⟩ := ascii_accepts (hzero 12 (by decide)) (show 136 + 12 ≤ h₅.length by omega)
  have lₛ : (blit h₆ (List.replicate 8 0x20) 148).length = 512 := by
    rw [length_blit (by rw [List.length_replicate]; omega)]
    omega
  have lₜ : (blit (blit h₆ (List.replicate 8 0x20) 148) [0x30] 156).length = 512 := by
    rw [length_blit (by rw [lₛ]; decide), lₛ]
  have hmagic : (encodeUnits (text "ustar\x00".toList)).length ≤ 6 := by
    rw [encodeUnits_text]
    decide
  have hversion : (encodeUnits (text "00".toList)).length ≤ 2 := by
    rw [encodeUnits_text]
    decide
  obtain ⟨h₇, e₇, l₇⟩ := ascii_accepts hmagic (show 257 + 6 ≤ (blit (blit h₆ (List.replicate 8 0x20) 148) [0x30] 156).length by
    omega)
  obtain ⟨h₈, e₈, l₈⟩ := ascii_accepts hversion (show 263 + 2 ≤ h₇.length by omega)
  obtain ⟨h₉, e₉, l₉⟩ := ascii_accepts hdirBytes (show 345 + 155 ≤ h₈.length by omega)
  have hsum : sum h₉ < 8 ^ 6 := by
    have := sum_le h₉
    omega
  obtain ⟨header, e, -⟩ := ascii_accepts (length_checksum hsum).le (show 148 + 8 ≤ h₉.length by omega)
  refine ⟨header, ?_⟩
  rw [tarHeader, hsplit]
  refine guard_ok.mpr ⟨not_or.mpr ⟨Nat.not_lt.mpr hname, Nat.not_lt.mpr hdir⟩, ?_⟩
  refine bind_ok.mpr ⟨h₁, e₁, bind_ok.mpr ⟨h₂, e₂, bind_ok.mpr ⟨h₃, e₃, bind_ok.mpr ⟨h₄, e₄, bind_ok.mpr ⟨h₅, e₅, ?_⟩⟩⟩⟩⟩
  exact bind_ok.mpr ⟨h₆, e₆, bind_ok.mpr ⟨h₇, e₇, bind_ok.mpr ⟨h₈, e₈, bind_ok.mpr ⟨h₉, e₉, e⟩⟩⟩⟩

/-! ## Paths -/

/-- What is left of a path: its prefix and its name up to a NUL, characters for what they encode. -/
def seenPath (path : CodeUnits) : CodeUnits :=
  let name := (splitPath path).2.takeWhile (· ≠ 0)
  let dir := (splitPath path).1.takeWhile (· ≠ 0)
  units (toText (if dir = [] then name else dir ++ 0x2F :: name))

def seen (entry : Entry) : Entry := { entry with path := seenPath entry.path }

/-- A path of characters other than NUL. -/
def Plain (path : CodeUnits) : Prop := 0 ∉ path ∧ units (toText path) = path

theorem lastIndexOf_spec {u : UInt16} {us : CodeUnits} {i : Nat} (h : lastIndexOf u us = some i) :
    us = us.take i ++ u :: us.drop (i + 1) := by
  induction us generalizing i with
  | nil => cases h
  | cons v us ih =>
    rw [lastIndexOf] at h
    split at h
    · next j hj =>
      cases h
      rw [List.take_succ_cons, List.drop_succ_cons, List.cons_append, ← ih hj]
    · split at h
      · next hv =>
        cases h
        rw [hv]
        rfl
      · cases h

theorem splitPath_spec (path : CodeUnits) : splitPath path = ([], path) ∨
    ((splitPath path).1 ≠ [] ∧ path = (splitPath path).1 ++ 0x2F :: (splitPath path).2) := by
  unfold splitPath
  split
  · next i hi =>
    have hpath := lastIndexOf_spec hi
    refine .inr ⟨fun hnil => ?_, hpath⟩
    obtain rfl : path = [] := by simpa using hnil
    cases hi
  · exact .inl rfl

/-- A header gives back what is left of its path. -/
theorem readHeader_spec {path : CodeUnits} {size : Nat} {header : Bytes} (h : HeaderOf path size header) :
    readHeader header = some (seenPath path, size) := by
  have hname : readText (encodeUnits (splitPath path).2) = _ := takeWhile_encodeUnits _
  have hdir : readText (encodeUnits (splitPath path).1) = _ := takeWhile_encodeUnits _
  have hslash (us vs : CodeUnits) : encodeUnits us ++ 0x2F :: encodeUnits vs = encodeUnits (us ++ 0x2F :: vs) := by
    rw [encodeUnits_append (by decide), List.append_assoc]
    rfl
  unfold readHeader
  rw [if_pos (by rw [h.checksum, h.flag, h.magic, h.version]; decide), h.size, h.name, h.dir, hname, hdir]
  refine congrArg (fun p => some (p, size)) ?_
  rw [seenPath]
  by_cases hd : (splitPath path).1.takeWhile (· ≠ 0) = []
  · rw [hd, if_pos rfl, if_pos encodeUnits_nil, decodeUnits_encodeUnits]
  · rw [if_neg hd, if_neg (mt encodeUnits_eq_nil hd), hslash, decodeUnits_encodeUnits]

theorem zero_not_mem_takeWhile (us : CodeUnits) : 0 ∉ us.takeWhile (· ≠ 0) := by
  intro h
  have := List.mem_takeWhile_imp h
  simp at this

/-- A path comes back just when it is plain. -/
theorem seenPath_eq_iff (path : CodeUnits) : seenPath path = path ↔ Plain path := by
  have hslash : (0 : UInt16) ≠ 0x2F := by decide
  constructor
  · intro h
    refine ⟨?_, units_toText_of_eq h⟩
    rw [← zero_mem_encodeUnits]
    have hbytes := congrArg (fun us => encodeUnits us) h
    simp only [seenPath, encodeUnits, toText_units] at hbytes
    rw [encodeUnits, ← hbytes, ← encodeUnits, zero_mem_encodeUnits]
    split
    · exact zero_not_mem_takeWhile _
    · rw [List.mem_append, List.mem_cons]
      rintro (h | h | h)
      · exact zero_not_mem_takeWhile _ h
      · exact hslash h
      · exact zero_not_mem_takeWhile _ h
  · rintro ⟨hzero, htext⟩
    rw [seenPath]
    rcases splitPath_spec path with hs | ⟨hdir, hs⟩
    · rw [hs]
      simp only [List.takeWhile_nil, if_true]
      rw [takeWhile_ne_self hzero, htext]
    · rw [hs, List.mem_append, List.mem_cons, not_or, not_or] at hzero
      obtain ⟨hd, -, hn⟩ := hzero
      simp only [takeWhile_ne_self hd, takeWhile_ne_self hn, if_neg hdir, ← hs]
      exact htext

/-! ## Archives -/

/-- The total of the blocks of some entries. -/
def total (entries : List Entry) : Nat := (entries.map fun entry => 512 + blocks entry.body.length).sum

/-- The bytes of some entries one after the other, each with its padding. -/
inductive Encoded : List Entry → Bytes → Prop
  | nil : Encoded [] []
  | cons {entry : Entry} {entries : List Entry} {header bytes : Bytes} :
    tarHeader entry.path entry.body.length = .ok header → Encoded entries bytes →
    Encoded (entry :: entries)
      (header ++ (entry.body ++ (zeros (blocks entry.body.length - entry.body.length) ++ bytes)))

theorem le_blocks (n : Nat) : n ≤ blocks n := by
  unfold blocks
  omega

theorem Encoded.length {entries : List Entry} {bytes : Bytes} (h : Encoded entries bytes) :
    bytes.length = total entries := by
  induction h with
  | nil => rfl
  | @cons entry entries header bytes hheader _ ih =>
    have := le_blocks entry.body.length
    have hlen : header.length = 512 := (tarHeader_spec hheader).length
    simp only [total, List.map_cons, List.sum_cons, List.length_append, zeros, List.length_replicate] at ih ⊢
    omega

theorem dvd_total (entries : List Entry) : 512 ∣ total entries := by
  induction entries with
  | nil => exact Nat.dvd_zero _
  | cons entry entries ih =>
    simp only [total, List.map_cons, List.sum_cons, blocks] at ih ⊢
    omega

theorem zeros_add (m n : Nat) : zeros (m + n) = zeros m ++ zeros n := List.replicate_add m n 0

theorem set_append (done bs : Bytes) {n : Nat} (h : bs.length ≤ n) :
    set (done ++ zeros n) bs done.length = .ok (done ++ bs ++ zeros (n - bs.length)) := by
  rw [set_ok, List.length_append, blit_append, zeros, zeros, List.length_replicate, List.drop_replicate]
  exact ⟨by omega, rfl⟩

/-- The loop fills the front of what is left, in its order. -/
theorem write_ok {entries : List Entry} {done result : Bytes} {n : Nat} (hn : total entries ≤ n) :
    write entries (done ++ zeros n) done.length = .ok result ↔
      ∃ bytes, Encoded entries bytes ∧ result = done ++ (bytes ++ zeros (n - total entries)) := by
  induction entries generalizing done n with
  | nil =>
    rw [write, Except.ok.injEq]
    constructor
    · rintro rfl
      exact ⟨[], .nil, rfl⟩
    · rintro ⟨_, ⟨⟩, rfl⟩
      rfl
  | cons entry entries ih =>
    have hle := le_blocks entry.body.length
    have htotal : total (entry :: entries) = 512 + blocks entry.body.length + total entries := rfl
    have hstep : ∀ header, tarHeader entry.path entry.body.length = .ok header →
        (write (entry :: entries) (done ++ zeros n) done.length = .ok result ↔ ∃ bytes, Encoded entries bytes ∧
          result = done ++ (header ++ (entry.body ++ (zeros (blocks entry.body.length - entry.body.length) ++ bytes)) ++
            zeros (n - total (entry :: entries)))) := by
      intro header hheader
      have hlen : header.length = 512 := (tarHeader_spec hheader).length
      have hset := set_append done header (show header.length ≤ n by omega)
      have hbody := set_append (done ++ header) entry.body (show entry.body.length ≤ n - header.length by omega)
      rw [List.length_append, hlen] at hbody
      have hpad : zeros (n - 512 - entry.body.length) =
          zeros (blocks entry.body.length - entry.body.length) ++ zeros (n - 512 - blocks entry.body.length) := by
        rw [← zeros_add]
        congr 1
        omega
      have hnext := @ih (done ++ header ++ entry.body ++ zeros (blocks entry.body.length - entry.body.length))
        (n - 512 - blocks entry.body.length) (by omega)
      have hoffset : (done ++ header ++ entry.body ++ zeros (blocks entry.body.length - entry.body.length)).length =
          done.length + 512 + blocks entry.body.length := by
        simp only [List.length_append, hlen, zeros, List.length_replicate]
        omega
      have hrest : n - 512 - blocks entry.body.length - total entries = n - total (entry :: entries) := by omega
      rw [hoffset, hrest] at hnext
      rw [write, hheader]
      change (set (done ++ zeros n) header done.length >>= _) = _ ↔ _
      rw [hset, hlen] at *
      change (set _ entry.body (done.length + 512) >>= _) = _ ↔ _
      rw [hbody, hpad]
      change write entries (done ++ header ++ entry.body ++ (zeros _ ++ zeros _)) _ = _ ↔ _
      rw [← List.append_assoc, hnext]
      simp only [List.append_assoc]
    constructor
    · intro h
      obtain ⟨header, hheader, -⟩ := bind_ok.mp h
      obtain ⟨bytes, hbytes, rfl⟩ := (hstep header hheader).mp h
      exact ⟨_, .cons hheader hbytes, rfl⟩
    · rintro ⟨_, hencoded, rfl⟩
      cases hencoded with
      | cons hheader hbytes => exact (hstep _ hheader).mpr ⟨_, hbytes, rfl⟩

theorem foldl_total (entries : List Entry) (n : Nat) :
    entries.foldl (fun total entry => total + 512 + blocks entry.body.length) n = total entries + n := by
  induction entries generalizing n with
  | nil => exact (Nat.zero_add n).symm
  | cons entry entries ih =>
    rw [List.foldl_cons, ih]
    simp only [total, List.map_cons, List.sum_cons]
    omega

/-- The archive of some entries is their bytes and two zero blocks. -/
theorem tar_ok {entries : List Entry} {result : Bytes} :
    tar entries = .ok result ↔ ∃ bytes, Encoded entries bytes ∧ result = bytes ++ zeros 1024 := by
  have h := @write_ok entries [] result (total entries + 1024) (by omega)
  rw [Nat.add_sub_cancel_left] at h
  rw [tar, foldl_total]
  exact h

theorem header_not_zero {path : CodeUnits} {size : Nat} {header : Bytes} (h : HeaderOf path size header) (rest : Bytes) :
    (header ++ rest).take 1024 ≠ List.replicate 1024 0 := by
  intro hzero
  have hlen := h.length
  have hfirst : header[257]? = some 0x75 := by
    have := congrArg (·[0]?) h.magic
    simpa [getElem?_slice] using this
  have hbyte : ((header ++ rest).take 1024)[257]? = (List.replicate 1024 (0 : UInt8))[257]? := by rw [hzero]
  rw [List.getElem?_take_of_lt (by decide), List.getElem?_append_left (by omega), hfirst,
    List.getElem?_replicate_of_lt (by decide)] at hbyte
  revert hbyte
  decide

theorem read_encoded {entries : List Entry} {bytes : Bytes} (h : Encoded entries bytes) {fuel : Nat}
    (hfuel : entries.length < fuel) : read fuel (bytes ++ zeros 1024) = some (entries.map seen) := by
  induction h generalizing fuel with
  | nil =>
    obtain ⟨fuel, rfl⟩ : ∃ k, fuel = k + 1 := ⟨fuel - 1, by omega⟩
    have hend : ([] ++ zeros 1024).take 1024 = List.replicate 1024 0 := by
      rw [List.nil_append, zeros, List.take_of_length_le (Nat.le_of_eq List.length_replicate)]
    rw [read, if_pos hend]
    rfl
  | @cons entry entries header bytes hheader _ ih =>
    obtain ⟨fuel, rfl⟩ : ∃ k, fuel = k + 1 := ⟨fuel - 1, by omega⟩
    have hspec := tarHeader_spec hheader
    have hle := le_blocks entry.body.length
    rw [List.append_assoc, read, if_neg (header_not_zero hspec _), List.take_left' hspec.length, readHeader_spec hspec,
      List.drop_left' hspec.length]
    have hlong : ¬(entry.body ++ (zeros (blocks entry.body.length - entry.body.length) ++ bytes) ++ zeros 1024).length <
        blocks entry.body.length := by
      simp only [List.length_append, zeros, List.length_replicate]
      omega
    have hpad : slice (entry.body ++ (zeros (blocks entry.body.length - entry.body.length) ++ bytes) ++ zeros 1024)
        entry.body.length (blocks entry.body.length - entry.body.length) =
          List.replicate (blocks entry.body.length - entry.body.length) 0 := by
      rw [slice, List.append_assoc, List.drop_left, List.append_assoc, List.take_left' (by simp [zeros])]
      rfl
    have hdrop : (entry.body ++ (zeros (blocks entry.body.length - entry.body.length) ++ bytes) ++ zeros 1024).drop
        (blocks entry.body.length) = bytes ++ zeros 1024 := by
      rw [← List.append_assoc, List.append_assoc, List.drop_left']
      simp only [List.length_append, zeros, List.length_replicate]
      omega
    have htake : (entry.body ++ (zeros (blocks entry.body.length - entry.body.length) ++ bytes) ++ zeros 1024).take
        entry.body.length = entry.body := by
      rw [List.append_assoc, List.take_left]
    change (if _ then _ else if _ then _ else _) = _
    rw [if_neg hlong, if_pos hpad, hdrop, ih (by simpa using hfuel), htake]
    rfl

theorem length_le_total (entries : List Entry) : entries.length ≤ total entries := by
  induction entries with
  | nil => exact Nat.zero_le _
  | cons entry entries ih =>
    simp only [total, List.map_cons, List.sum_cons, List.length_cons] at ih ⊢
    omega

theorem untar_tar_seen {entries : List Entry} {bytes : Bytes} (h : tar entries = .ok bytes) :
    untar bytes = some (entries.map seen) := by
  obtain ⟨chunks, hchunks, rfl⟩ := tar_ok.mp h
  refine read_encoded hchunks ?_
  have hle := length_le_total entries
  rw [List.length_append, hchunks.length]
  omega

theorem map_seen_eq_iff (entries : List Entry) : entries.map seen = entries ↔ ∀ entry ∈ entries, Plain entry.path := by
  induction entries with
  | nil => simp
  | cons entry entries ih =>
    rw [List.map_cons, List.cons.injEq, ih, List.forall_mem_cons, ← seenPath_eq_iff]
    cases entry
    simp [seen]

theorem Encoded.header {front back : List Entry} {entry : Entry} {bytes : Bytes}
    (h : Encoded (front ++ entry :: back) bytes) :
    HeaderOf entry.path entry.body.length (slice (bytes ++ zeros 1024) (total front) 512) := by
  induction front generalizing bytes with
  | nil =>
    cases h with
    | cons hheader _ =>
      have hspec := tarHeader_spec hheader
      have hslice (rest : Bytes) : slice (_ ++ rest) 0 512 = _ := List.take_left' hspec.length
      rw [List.append_assoc]
      exact (hslice _).symm ▸ hspec
  | cons other front ih =>
    cases h with
    | @cons _ _ header bytes hheader hbytes =>
      have hlen := (tarHeader_spec hheader).length
      have hle := le_blocks other.body.length
      have hskip : total (other :: front) =
          (header ++ (other.body ++ zeros (blocks other.body.length - other.body.length))).length + total front := by
        simp only [total, List.map_cons, List.sum_cons, List.length_append, hlen, zeros, List.length_replicate]
        omega
      have hsplit : header ++ (other.body ++ (zeros (blocks other.body.length - other.body.length) ++ bytes)) ++ zeros 1024 =
          header ++ (other.body ++ zeros (blocks other.body.length - other.body.length)) ++ (bytes ++ zeros 1024) := by
        simp only [List.append_assoc]
      rw [hskip, hsplit, slice_append]
      exact ih hbytes

/-- An archive has the headers of its entries at their places, a whole number of blocks, and gives back the entries
just when their paths are plain. -/
theorem untar_tar {entries : List Entry} {bytes : Bytes} (h : tar entries = .ok bytes) :
    (untar bytes = some entries ↔ ∀ entry ∈ entries, Plain entry.path) ∧
      (∀ front entry back, entries = front ++ entry :: back → checksumValid (slice bytes (total front) 512) = true) ∧
      512 ∣ bytes.length := by
  refine ⟨?_, ?_, ?_⟩
  · rw [untar_tar_seen h, Option.some.injEq, map_seen_eq_iff]
  · rintro front entry back rfl
    obtain ⟨chunks, hchunks, rfl⟩ := tar_ok.mp h
    exact hchunks.header.checksum
  · obtain ⟨chunks, hchunks, rfl⟩ := tar_ok.mp h
    rw [List.length_append, hchunks.length, zeros, List.length_replicate]
    exact Nat.dvd_add (dvd_total entries) (by decide)

theorem untar_tar_desc : ∃ bytes, tar [⟨units "a-1/desc", [0x25, 0x0A]⟩] = .ok bytes ∧
    untar bytes = some [⟨units "a-1/desc", [0x25, 0x0A]⟩] ∧ checksumValid (slice bytes 0 512) = true ∧ 512 ∣ bytes.length := by
  have hascii : IsAscii (units "desc") ∧ IsAscii (units "a-1") := by decide
  have hsplit : splitPath (units "a-1/desc") = (units "a-1", units "desc") := by decide
  obtain ⟨header, hheader⟩ := @tarHeader_accepts (units "a-1/desc") 2 (by rw [hsplit]; decide)
    (by rw [hsplit]; decide) (by rw [hsplit, length_encodeUnits_ascii hascii.1]; decide)
    (by rw [hsplit, length_encodeUnits_ascii hascii.2]; decide) (by decide)
  have htar := tar_ok.mpr ⟨_, @Encoded.cons ⟨units "a-1/desc", [0x25, 0x0A]⟩ _ _ _ hheader .nil, rfl⟩
  obtain ⟨hentries, hheaders, hsize⟩ := untar_tar htar
  refine ⟨_, htar, hentries.mpr ?_, hheaders [] _ [] rfl, hsize⟩
  intro entry hentry
  rw [List.mem_singleton.mp hentry]
  exact ⟨by decide, by simp⟩

theorem nul_path_cut : ∃ bytes, tar [⟨[0x61, 0, 0x62], []⟩] = .ok bytes ∧ untar bytes ≠ some [⟨[0x61, 0, 0x62], []⟩] := by
  have hascii : IsAscii [0x61, 0, 0x62] := by decide
  have hsplit : splitPath [0x61, 0, 0x62] = ([], [0x61, 0, 0x62]) := by decide
  obtain ⟨header, hheader⟩ := @tarHeader_accepts [0x61, 0, 0x62] 0 (by rw [hsplit]; decide)
    (by rw [hsplit]; decide) (by rw [hsplit, length_encodeUnits_ascii hascii]; decide) (by rw [hsplit]; decide) (by decide)
  have htar := tar_ok.mpr ⟨_, @Encoded.cons ⟨[0x61, 0, 0x62], []⟩ _ _ _ hheader .nil, rfl⟩
  refine ⟨_, htar, ?_⟩
  rw [untar_tar_seen htar, Ne, Option.some.injEq, map_seen_eq_iff]
  intro hplain
  exact (hplain _ List.mem_cons_self).1 (by decide)

end Omapkg.Server.Tar
