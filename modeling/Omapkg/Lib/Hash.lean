import Omapkg.Lib.JsonString
/-!
# Digests

A 256-bit digest and its 64 hexadecimal digits. The hash itself is a parameter
of what uses it.
-/

namespace Hash

open Json

structure Digest where
  bytes : List UInt8
  length_eq : bytes.length = 32
  deriving DecidableEq

def Digest.zero : Digest := ⟨List.replicate 32 0, rfl⟩

def hexByte (b : UInt8) : List Char := [hexDigit (b.toNat / 16), hexDigit (b.toNat % 16)]

/-- The digest as lower-case hexadecimal digits. -/
def Digest.hex (d : Digest) : String := String.ofList (d.bytes.flatMap hexByte)

def isLowerHex (c : Char) : Bool := ('0' ≤ c && c ≤ '9') || ('a' ≤ c && c ≤ 'f')

/-- The pattern `^[0-9a-f]{64}$`. -/
def isHexDigest (cs : List Char) : Bool := cs.length = 64 && cs.all isLowerHex

theorem isLowerHex_hexDigit : ∀ {n : Nat}, n < 16 → isLowerHex (hexDigit n) = true := by
  decide

theorem hexByte_isLowerHex (b : UInt8) : ∀ c ∈ hexByte b, isLowerHex c = true := by
  have hb := b.toNat_lt
  intro c hc
  simp only [hexByte, List.mem_cons, List.not_mem_nil, or_false] at hc
  rcases hc with rfl | rfl
  · exact isLowerHex_hexDigit (by omega)
  · exact isLowerHex_hexDigit (by omega)

theorem length_hexBytes (bs : List UInt8) : (bs.flatMap hexByte).length = 2 * bs.length := by
  induction bs with
  | nil => rfl
  | cons b bs ih =>
    rw [List.flatMap_cons, List.length_append, ih, hexByte, List.length_cons, List.length_cons,
      List.length_cons, List.length_nil]
    omega

/-- Every digest is spelled as the pattern wants. -/
@[simp]
theorem isHexDigest_hex (d : Digest) : isHexDigest d.hex.toList = true := by
  rw [Digest.hex, String.toList_ofList, isHexDigest, length_hexBytes, d.length_eq]
  simp only [Bool.and_eq_true, decide_eq_true_eq, List.all_eq_true, List.mem_flatMap]
  refine ⟨trivial, ?_⟩
  rintro c ⟨b, -, hc⟩
  exact hexByte_isLowerHex b c hc

end Hash
