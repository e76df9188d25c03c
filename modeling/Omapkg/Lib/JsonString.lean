import Omapkg.Lib.Json
/-!
# JSON strings

A lexer for string literals and the escapes an encoder writes. A literal is
read first as pieces, characters and `\u` units, then joined: two units that
are a surrogate pair are one character, and one that has no partner is U+FFFD.
-/

namespace Json

/-! ## Strings -/

/-- What one character or escape of a string literal stands for: a character,
or the UTF-16 unit of a `\u` escape. -/
inductive Piece where
  | raw (c : Char)
  | unit (n : Nat)
  deriving DecidableEq

def hexVal (c : Char) : Option Nat :=
  if '0' ≤ c ∧ c ≤ '9' then some (c.toNat - 48)
  else if 'a' ≤ c ∧ c ≤ 'f' then some (c.toNat - 87)
  else if 'A' ≤ c ∧ c ≤ 'F' then some (c.toNat - 55)
  else none

def hex4 (a b c d : Char) : Option Nat := do
  let a ← hexVal a
  let b ← hexVal b
  let c ← hexVal c
  let d ← hexVal d
  some (((a * 16 + b) * 16 + c) * 16 + d)

/-- The one-character escapes. -/
def shortEscape (c : Char) : Option Char :=
  if c = '"' ∨ c = '\\' ∨ c = '/' then some c
  else if c = 'b' then some '\x08'
  else if c = 'f' then some '\x0c'
  else if c = 'n' then some '\n'
  else if c = 'r' then some '\r'
  else if c = 't' then some '\t'
  else none

/-- The pieces of a string literal after its opening quote, and what follows
the closing one. -/
def lexPieces : List Char → Option (List Piece × List Char)
  | [] => none
  | c :: r =>
    if c = '"' then some ([], r)
    else if c < ' ' then none
    else if c = '\\' then
      match r with
      | [] => none
      | e :: r =>
        if e = 'u' then
          match r with
          | a :: b :: c :: d :: r => do
            let n ← hex4 a b c d
            let (ps, r) ← lexPieces r
            some (.unit n :: ps, r)
          | _ => none
        else do
          let e ← shortEscape e
          let (ps, r) ← lexPieces r
          some (.raw e :: ps, r)
    else do
      let (ps, r) ← lexPieces r
      some (.raw c :: ps, r)

def highUnit (n : Nat) : Bool := 0xD800 ≤ n && n < 0xDC00

def lowUnit (n : Nat) : Bool := 0xDC00 ≤ n && n < 0xE000

/-- The character of a surrogate pair. -/
def pairChar (hi lo : Nat) : Char := Char.ofNat (0x10000 + (hi - 0xD800) * 0x400 + (lo - 0xDC00))

def replacement : Char := '\uFFFD'

/-- The characters the pieces spell; `hi` is a high surrogate just read. -/
def joinPieces : Option Nat → List Piece → List Char
  | none, [] => []
  | some _, [] => [replacement]
  | none, .raw c :: ps => c :: joinPieces none ps
  | some _, .raw c :: ps => replacement :: c :: joinPieces none ps
  | none, .unit n :: ps =>
    if highUnit n then joinPieces (some n) ps
    else if lowUnit n then replacement :: joinPieces none ps
    else Char.ofNat n :: joinPieces none ps
  | some hi, .unit n :: ps =>
    if lowUnit n then pairChar hi n :: joinPieces none ps
    else if highUnit n then replacement :: joinPieces (some n) ps
    else replacement :: Char.ofNat n :: joinPieces none ps

/-- A string literal after its opening quote. -/
def lexString (cs : List Char) : Option (List Char × List Char) :=
  (lexPieces cs).map fun x => (joinPieces none x.1, x.2)

theorem joinPieces_some {hi : Nat} {ps : List Piece} (h : ∀ n, ps.head? = some (.unit n) → lowUnit n = false) :
    joinPieces (some hi) ps = replacement :: joinPieces none ps := by
  rcases ps with _ | ⟨c | n, ps⟩
  · rfl
  · rfl
  · have hn : lowUnit n = false := h n rfl
    cases hh : highUnit n <;> simp [joinPieces, hn, hh]

/-! ## Escapes -/

def hexDigit (n : Nat) : Char := if n < 10 then Char.ofNat (48 + n) else Char.ofNat (87 + n)

/-- The `\u` escape of a UTF-16 unit. -/
def unitEscape (n : Nat) : List Char :=
  ['\\', 'u', hexDigit (n / 4096 % 16), hexDigit (n / 256 % 16), hexDigit (n / 16 % 16), hexDigit (n % 16)]

/-- A character as an encoder spells it that escapes no more than it must. -/
def escapeChar (c : Char) : List Char :=
  if c = '"' ∨ c = '\\' then ['\\', c]
  else if c = '\x08' then ['\\', 'b']
  else if c = '\x0c' then ['\\', 'f']
  else if c = '\n' then ['\\', 'n']
  else if c = '\r' then ['\\', 'r']
  else if c = '\t' then ['\\', 't']
  else if c < ' ' then unitEscape c.toNat
  else [c]

/-- What the string lexer reads of an escaped character. -/
def escapePiece (c : Char) : Piece :=
  if c < ' ' ∧ c ≠ '\x08' ∧ c ≠ '\x0c' ∧ c ≠ '\n' ∧ c ≠ '\r' ∧ c ≠ '\t' then .unit c.toNat else .raw c

theorem hexVal_hexDigit : ∀ {n : Nat}, n < 16 → hexVal (hexDigit n) = some n := by
  decide

theorem hex4_unitEscape {n : Nat} (h : n < 0x10000) :
    hex4 (hexDigit (n / 4096 % 16)) (hexDigit (n / 256 % 16)) (hexDigit (n / 16 % 16)) (hexDigit (n % 16)) =
      some n := by
  have h1 := @hexVal_hexDigit (n / 4096 % 16) (by omega)
  have h2 := @hexVal_hexDigit (n / 256 % 16) (by omega)
  have h3 := @hexVal_hexDigit (n / 16 % 16) (by omega)
  have h4 := @hexVal_hexDigit (n % 16) (by omega)
  simp only [hex4, h1, h2, h3, h4, Option.bind_eq_bind, Option.bind_some, Option.some.injEq]
  omega

theorem lexPieces_unitEscape {n : Nat} (h : n < 0x10000) (t : List Char) :
    lexPieces (unitEscape n ++ t) = (lexPieces t).map fun x => (.unit n :: x.1, x.2) := by
  simp only [unitEscape, List.cons_append, List.nil_append]
  rw [lexPieces]
  simp only [Char.reduceEq, if_false, if_true, show ¬('\\' < ' ') by decide]
  rw [hex4_unitEscape h]
  cases lexPieces t <;> rfl

theorem lexPieces_short {e c : Char} (h : shortEscape e = some c) (hu : e ≠ 'u') (t : List Char) :
    lexPieces ('\\' :: e :: t) = (lexPieces t).map fun x => (.raw c :: x.1, x.2) := by
  rw [lexPieces.eq_def]
  simp only [Char.reduceEq, if_false, if_true, show ¬('\\' < ' ') by decide, hu, h, Option.bind_eq_bind,
    Option.bind_some]
  cases lexPieces t <;> rfl

theorem lexPieces_raw {c : Char} (hq : c ≠ '"') (hb : c ≠ '\\') (hc : ¬c < ' ') (t : List Char) :
    lexPieces (c :: t) = (lexPieces t).map fun x => (.raw c :: x.1, x.2) := by
  rw [lexPieces.eq_def]
  simp only [hq, hb, hc, if_false, Option.bind_eq_bind]
  cases lexPieces t <;> rfl

theorem lexPieces_escapeChar (c : Char) (t : List Char) :
    lexPieces (escapeChar c ++ t) = (lexPieces t).map fun x => (escapePiece c :: x.1, x.2) := by
  unfold escapeChar
  split_ifs with hq h1 h2 h3 h4 h5 h6
  · rcases hq with rfl | rfl
    · exact lexPieces_short (by decide) (by decide) t
    · exact lexPieces_short (by decide) (by decide) t
  · subst h1; exact lexPieces_short (by decide) (by decide) t
  · subst h2; exact lexPieces_short (by decide) (by decide) t
  · subst h3; exact lexPieces_short (by decide) (by decide) t
  · subst h4; exact lexPieces_short (by decide) (by decide) t
  · subst h5; exact lexPieces_short (by decide) (by decide) t
  · have hn : c.toNat < 0x10000 := by
      have : c.toNat < 32 := h6
      omega
    have hp : escapePiece c = .unit c.toNat := if_pos ⟨h6, h1, h2, h3, h4, h5⟩
    rw [hp, lexPieces_unitEscape hn]
  · have hp : escapePiece c = .raw c := if_neg fun h => h6 h.1
    rw [hp, List.singleton_append, lexPieces_raw (fun h => hq (.inl h)) (fun h => hq (.inr h)) h6]

/-! ## Encoders that escape more -/

/-- An encoder that spells a character as `escapeChar` does or as a `\u`
escape. -/
def Escapes (esc : Char → List Char) : Prop :=
  ∀ c, esc c = escapeChar c ∨ (esc c = unitEscape c.toNat ∧ c.toNat < 0x10000)

/-- A character is no surrogate. -/
theorem char_unit (c : Char) : highUnit c.toNat = false ∧ lowUnit c.toNat = false := by
  have hc : c.toNat < 0xD800 ∨ 0xE000 ≤ c.toNat := by
    rcases c.valid with h | h
    · exact .inl h
    · exact .inr (Nat.succ_le_of_lt h.1)
  simp only [highUnit, lowUnit, Bool.and_eq_false_iff, decide_eq_false_iff_not]
  omega

theorem joinPieces_char {p : Piece} {c : Char} (h : p = .raw c ∨ p = .unit c.toNat) (ps : List Piece) :
    joinPieces none (p :: ps) = c :: joinPieces none ps := by
  obtain ⟨hh, hl⟩ := char_unit c
  rcases h with rfl | rfl
  · rfl
  · simp [joinPieces, hh, hl, Char.ofNat_toNat]

/-- Such an encoder's text is read back, and what follows it is left. -/
theorem lexString_escapes {esc : Char → List Char} (h : Escapes esc) (cs t : List Char) :
    lexString (cs.flatMap esc ++ '"' :: t) = some (cs, t) := by
  have hlex : ∃ ps, lexPieces (cs.flatMap esc ++ '"' :: t) = some (ps, t) ∧ joinPieces none ps = cs := by
    induction cs with
    | nil => exact ⟨[], by simp [lexPieces.eq_def], rfl⟩
    | cons c cs ih =>
      obtain ⟨ps, hps, hjoin⟩ := ih
      have hc : ∃ p, (p = .raw c ∨ p = .unit c.toNat) ∧
          lexPieces (esc c ++ (cs.flatMap esc ++ '"' :: t)) = some (p :: ps, t) := by
        rcases h c with he | ⟨he, hn⟩
        · refine ⟨escapePiece c, ?_, by rw [he, lexPieces_escapeChar, hps]; rfl⟩
          unfold escapePiece
          split
          · exact .inr rfl
          · exact .inl rfl
        · exact ⟨.unit c.toNat, .inr rfl, by rw [he, lexPieces_unitEscape hn, hps]; rfl⟩
      obtain ⟨p, hp, hlex⟩ := hc
      refine ⟨p :: ps, ?_, by rw [joinPieces_char hp, hjoin]⟩
      rw [List.flatMap_cons, List.append_assoc, hlex]
  obtain ⟨ps, hps, hjoin⟩ := hlex
  rw [lexString, hps, Option.map_some, hjoin]

end Json
