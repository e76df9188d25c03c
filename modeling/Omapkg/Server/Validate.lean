import Omapkg.Server.Manifest
/-!
# Validators of the release service

The checks `src/src/lib/server/distribution-releases.ts` makes of the values a
manifest is built from. A pattern over ASCII looks at a string's units one by
one.
-/

namespace Omapkg.Server

open Utf Json

structure PolicyError where
  status : Nat
  message : String
  deriving DecidableEq

def reject {α : Type} (message : String) (status : Nat) : Except PolicyError α := .error ⟨status, message⟩

def maxText : Nat := 4096

def maxChunkBytes : Nat := 1048576

def maxChunks : Nat := 100000

/-- `Number.MAX_SAFE_INTEGER`. -/
def maxSafeInteger : Nat := 9007199254740991

/-! ## Text -/

/-- White space and line terminators, which `trim` takes off. -/
def isJsSpace (u : UInt16) : Bool :=
  [0x09, 0x0A, 0x0B, 0x0C, 0x0D, 0x20, 0xA0, 0x1680, 0x2000, 0x2001, 0x2002, 0x2003, 0x2004, 0x2005, 0x2006,
    0x2007, 0x2008, 0x2009, 0x200A, 0x2028, 0x2029, 0x202F, 0x205F, 0x3000, 0xFEFF].contains u

theorem jsSpace_all {p : UInt16 → Bool}
    (hp : ([0x09, 0x0A, 0x0B, 0x0C, 0x0D, 0x20, 0xA0, 0x1680, 0x2000, 0x2001, 0x2002, 0x2003, 0x2004, 0x2005, 0x2006,
      0x2007, 0x2008, 0x2009, 0x200A, 0x2028, 0x2029, 0x202F, 0x205F, 0x3000, 0xFEFF] : List UInt16).all p = true)
    {u : UInt16} (hu : isJsSpace u = true) : p u = true := List.all_eq_true.mp hp u (List.contains_iff_mem.mp hu)

def trim (s : JsString) : JsString := ((s.dropWhile isJsSpace).reverse.dropWhile isJsSpace).reverse

def isControl (u : UInt16) : Bool := u ≤ 0x1F || u = 0x7F

def text (value : JsString) (label : String) (maximum : Nat) : Except PolicyError JsString :=
  if trim value = [] ∨ value.length > maximum ∨ value.any isControl = true then
    reject s!"{label} is invalid." 400
  else .ok (trim value)

/-! ## Patterns -/

/-- The units of a string as a pattern over ASCII sees them. -/
def ascii (s : JsString) : List Char := s.map fun u => Char.ofNat u.toNat

/-- `/^[a-f0-9]{64}$/`. -/
def isSha256 (s : JsString) : Bool := Hash.isHexDigest (ascii s)

/-- A string of basic characters reads back from its units. -/
theorem ascii_units {s : String} (h : ∀ c ∈ s.toList, c.toNat < 0x10000) : ascii (units s) = s.toList := by
  have hc : ∀ c ∈ s.toList, (encodeUnit c).map (fun u => Char.ofNat u.toNat) = [c] := by
    intro c hmem
    have hn : (UInt16.ofNat c.toNat).toNat = c.toNat := toNat_unit (h c hmem)
    rw [encodeUnit, if_pos (h c hmem), List.map_singleton, hn, Char.ofNat_toNat]
  rw [ascii, units, List.map_flatMap, List.flatMap_congr hc]
  simp

theorem isSha256_hex (d : Hash.Digest) : isSha256 (units d.hex) = true := by
  have hd := Hash.isHexDigest_hex d
  have hall : ∀ c ∈ d.hex.toList, c.toNat < 0x10000 := by
    intro c hc
    simp only [Hash.isHexDigest, Bool.and_eq_true, List.all_eq_true] at hd
    have hx := hd.2 c hc
    simp only [Hash.isLowerHex, Bool.or_eq_true, Bool.and_eq_true, decide_eq_true_eq] at hx
    rcases hx with ⟨-, h⟩ | ⟨-, h⟩
    · exact Nat.lt_of_le_of_lt (show c.toNat ≤ '9'.toNat from h) (by decide)
    · exact Nat.lt_of_le_of_lt (show c.toNat ≤ 'f'.toNat from h) (by decide)
  rw [isSha256, ascii_units hall]
  exact hd

def isAlnum (c : Char) : Bool := ('A' ≤ c && c ≤ 'Z') || ('a' ≤ c && c ≤ 'z') || ('0' ≤ c && c ≤ '9')

/-- `[A-Za-z0-9._-]`. -/
def isIdChar (c : Char) : Bool := isAlnum c || c = '.' || c = '_' || c = '-'

/-- `[A-Za-z0-9][A-Za-z0-9._-]{0,n}` and nothing else. -/
def isIdWord (n : Nat) : List Char → Bool
  | [] => false
  | c :: cs => isAlnum c && cs.all isIdChar && cs.length ≤ n

/-! ## System versions -/

inductive VersionCandidate where
  | final | rc | edge
  deriving DecidableEq, Repr

structure SystemVersion where
  version : List Char
  candidate : VersionCandidate
  sequence : Nat
  deriving DecidableEq

/-- `0|[1-9]\d{0,5}`, with no digit after it, and what follows. -/
def versionNumber (cs : List Char) : Option (List Char × List Char) :=
  let ds := digits cs
  if ds = ['0'] ∨ (ds ≠ [] ∧ ds.head? ≠ some '0' ∧ ds.length ≤ 6) then some (ds, afterDigits cs) else none

/-- `[1-9]\d{0,5}` and nothing else. -/
def candidateNumber (cs : List Char) : Option Nat :=
  if cs ≠ [] ∧ cs.head? ≠ some '0' ∧ cs.length ≤ 6 ∧ cs.all Char.isDigit = true then
    some (Nat.ofDigitChars 10 cs 0)
  else none

/-- What follows the version: nothing, `-rcN` or `-edge.N`. -/
def versionSuffix : List Char → Option (VersionCandidate × Nat)
  | [] => some (.final, 0)
  | '-' :: 'r' :: 'c' :: cs => (candidateNumber cs).map fun n => (.rc, n)
  | '-' :: 'e' :: 'd' :: 'g' :: 'e' :: '.' :: cs => (candidateNumber cs).map fun n => (.edge, n)
  | _ => none

def expect (c : Char) : List Char → Option (List Char)
  | [] => none
  | d :: cs => if d = c then some cs else none

def parseSystemVersion (value : JsString) : Option SystemVersion := do
  let (a, r) ← versionNumber (ascii value)
  let (b, r) ← versionNumber (← expect '.' r)
  let (c, r) ← versionNumber (← expect '.' r)
  let (candidate, sequence) ← versionSuffix r
  some ⟨a ++ '.' :: b ++ '.' :: c, candidate, sequence⟩

/-- `/^opr-[A-Za-z0-9][A-Za-z0-9._-]{0,110}$/`. -/
def isOprId : List Char → Bool
  | 'o' :: 'p' :: 'r' :: '-' :: cs => isIdWord 110 cs
  | _ => false

def assertReleaseId (kind : ReleaseKind) (value : JsString) : Except PolicyError JsString := do
  let releaseId ← text value "Release identity" 128
  if isIdWord 127 (ascii releaseId) = false then reject "Release identity is invalid." 400
  else if kind = .system ∧ parseSystemVersion releaseId = none then
    reject "System release must use an Omarchy version such as 4.0.3 or 4.0.3-rc1." 400
  else if kind = .opr ∧ isOprId (ascii releaseId) = false then
    reject "OPR release must use an immutable generation such as opr-20260910-1." 400
  else .ok releaseId

end Omapkg.Server
