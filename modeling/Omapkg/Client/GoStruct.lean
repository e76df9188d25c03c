import Omapkg.Client.GoJson
import Omapkg.Lib.Record
/-!
# Structs of the client as JSON

`json.Marshal` and `json.Unmarshal` of the structs the client keeps on disk.
Unlike a signed document, a struct is written in the order of its fields and
with HTML escapes, and read by names that may differ in case.
-/

namespace Omapkg.Client

open Json Utf Record

/-! ## Names -/

/-- `foldRune` on what may stand for an ASCII letter. -/
def foldRune (c : Char) : Char :=
  if 'a' ≤ c ∧ c ≤ 'z' then Char.ofNat (c.toNat - 32)
  else if c = '\u017F' then 'S'
  else if c = '\u212A' then 'K'
  else c

/-- Whether a name in a document is the field's. -/
def foldEqual (field name : String) : Bool := field.toList.map foldRune = name.toList.map foldRune

/-! ## Values -/

def stringCodec : Codec String where
  encode s := .str s
  decode
    | .str s, _ => some s
    | .null, old => some old
    | _, _ => none

/-- `strconv.ParseUint` in 64 bits. -/
def parseUint64 (text : List Char) : Option Nat :=
  if text.all Char.isDigit = true ∧ Nat.ofDigitChars 10 text 0 < 2 ^ 64 then some (Nat.ofDigitChars 10 text 0)
  else none

def uint64Codec : Codec Nat where
  encode n := .num (.ofNat n)
  decode
    | .num n, _ => parseUint64 n.text
    | .null, old => some old
    | _, _ => none

/-- An `int` or an `int64`. -/
def int64Codec : Codec Int where
  encode n := .num (.ofInt n)
  decode
    | .num n, _ =>
      let (sign, r) := lexSign n.text
      if afterDigits r ≠ [] then none else parseInt64 sign (digits r)
    | .null, old => some old
    | _, _ => none

/-- A `uint32`. -/
def uint32Codec : Codec Nat where
  encode n := .num (.ofNat n)
  decode
    | .num n, _ => (parseUint64 n.text).bind fun m => if m < 2 ^ 32 then some m else none
    | .null, old => some old
    | _, _ => none

def boolCodec : Codec Bool where
  encode b := .bool b
  decode
    | .bool b, _ => some b
    | .null, old => some old
    | _, _ => none

section
variable {α : Type}

/-- Reads entries into a map, each over a new value. -/
def decodeEntries (codec : Codec α) (zero : α) : List (String × Json String) → List (String × α) →
    Option (List (String × α))
  | [], m => some m
  | (k, v) :: ms, m => (codec.decode v zero).bind fun a => decodeEntries codec zero ms (setKey k a m)

/-- A map by ascending key; `null` is the nil map, which is empty. -/
def mapCodec (codec : Codec α) (zero : α) : Codec (List (String × α)) where
  encode m := .obj (m.map fun e => (e.1, codec.encode e.2))
  decode
    | .obj ms, m => decodeEntries codec zero ms m
    | .null, _ => some []
    | _, _ => none

theorem decodeEntries_encode {codec : Codec α} {zero : α} (ms m : List (String × α))
    (hc : ∀ e ∈ ms, codec.decode (codec.encode e.2) zero = some e.2)
    (hp : (m ++ ms).Pairwise fun a b => a.1 < b.1) :
    decodeEntries codec zero (ms.map fun e => (e.1, codec.encode e.2)) m = some (m ++ ms) := by
  induction ms generalizing m with
  | nil => rw [List.append_nil]; rfl
  | cons e ms ih =>
    obtain ⟨k, a⟩ := e
    obtain ⟨ha, hc⟩ := List.forall_mem_cons.mp hc
    have hlast : ∀ e ∈ m, e.1 < k := fun e he => (List.pairwise_append.mp hp).2.2 e he (k, a) List.mem_cons_self
    have hp' : ((m ++ [(k, a)]) ++ ms).Pairwise fun a b => a.1 < b.1 := by
      rwa [List.append_assoc, List.singleton_append]
    simp only [List.map_cons, decodeEntries, ha, Option.bind_some, setKey_last hlast]
    rw [ih _ hc hp', List.append_assoc, List.singleton_append]

theorem mapCodec_reads {codec : Codec α} {zero : α} {m : List (String × α)}
    (hc : ∀ e ∈ m, codec.decode (codec.encode e.2) zero = some e.2) (hp : m.Pairwise fun a b => a.1 < b.1) :
    (mapCodec codec zero).decode ((mapCodec codec zero).encode m) [] = some m :=
  decodeEntries_encode m [] hc hp

end

theorem uint64Codec_reads {n : Nat} (h : n < 2 ^ 64) (old : Nat) :
    uint64Codec.decode (uint64Codec.encode n) old = some n := by
  have hall : (Nat.toDigits 10 n).all Char.isDigit = true := List.all_eq_true.mpr (toDigits_isDigit n)
  simp only [uint64Codec, parseUint64, Numeral.ofNat, hall, Nat.ofDigitChars_ten_toDigits, h, and_self, if_true]

theorem uint32Codec_reads {n : Nat} (h : n < 2 ^ 32) (old : Nat) :
    uint32Codec.decode (uint32Codec.encode n) old = some n := by
  have h64 : n < 2 ^ 64 := Nat.lt_trans h (by decide)
  have hr : parseUint64 (Numeral.ofNat n).text = some n := uint64Codec_reads h64 0
  simp only [uint32Codec, hr, Option.bind_some, h, if_true]

theorem int64Codec_reads {n : Int} (h : -2 ^ 63 ≤ n ∧ n < 2 ^ 63) (old : Int) :
    int64Codec.decode (int64Codec.encode n) old = some n := by
  cases n with
  | ofNat n =>
    have hn : n < 2 ^ 63 := Int.ofNat_lt.mp h.2
    obtain ⟨hd, ha⟩ := digits_of_all (toDigits_isDigit n)
    simp only [int64Codec, Numeral.ofInt, Numeral.ofNat, lexSign_toDigits, hd, ha, ne_eq, not_true_eq_false, if_false,
      parseInt64_toDigits hn, Int.ofNat_eq_natCast]
  | negSucc n =>
    have hn : n + 1 ≤ 2 ^ 63 := by
      have := h.1
      omega
    obtain ⟨hd, ha⟩ := digits_of_all (toDigits_isDigit (n + 1))
    simp only [int64Codec, Numeral.ofInt, lexSign, hd, ha, ne_eq, not_true_eq_false, if_false, parseInt64,
      Nat.toDigits_ne_nil, Nat.ofDigitChars_ten_toDigits, if_true, hn]
    rfl

/-! ## Bytes -/

/-- A character as `json.Marshal` writes it. -/
def htmlEscape (c : Char) : List Char :=
  if c = '<' ∨ c = '>' ∨ c = '&' then unitEscape c.toNat else goEscape c

def htmlQuote (s : String) : List Char := '"' :: (s.toList.flatMap htmlEscape ++ ['"'])

theorem escapes_htmlEscape : Escapes htmlEscape := by
  intro c
  unfold htmlEscape goEscape
  split
  · rename_i h
    exact .inr ⟨rfl, by rcases h with rfl | rfl | rfl <;> decide⟩
  · split
    · rename_i h
      exact .inr ⟨rfl, by rcases h with rfl | rfl <;> decide⟩
    · exact .inl rfl

theorem reads_htmlQuote : Reads htmlQuote String.toList := by
  intro s
  refine ⟨s.toList.flatMap htmlEscape ++ ['"'], rfl, fun t => ?_⟩
  rw [List.append_assoc, List.singleton_append, lexString_escapes escapes_htmlEscape]

section
variable {ρ : Type} (codec : Codec ρ)

def marshal (r : ρ) : Bytes := encode ((codec.encode r).print htmlQuote)

/-- `json.Unmarshal` into a new value. -/
def unmarshal (zero : ρ) (data : Bytes) : Option ρ :=
  match parse maxNestingDepth (decode data) with
  | none => none
  | some (value, rest) => if skipWs rest = [] then codec.decode value zero else none

theorem unmarshal_marshal {codec : Codec ρ} {zero r : ρ} (hd : (codec.encode r).depth ≤ maxNestingDepth)
    (h : codec.decode (codec.encode r) zero = some r) : unmarshal codec zero (marshal codec r) = some r := by
  have hp := parse_print reads_htmlQuote (codec.encode r) hd stops_nil
  have hid : String.ofList ∘ String.toList = id := by
    funext s
    exact String.ofList_toList
  rw [List.append_nil, hid, map_id] at hp
  simp only [unmarshal, marshal, decode_encode, hp, skipWs, List.dropWhile_nil, if_true, h]

end

end Omapkg.Client
