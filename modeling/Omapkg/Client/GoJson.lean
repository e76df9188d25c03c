import Mathlib.Algebra.Group.Int.Defs
import Mathlib.Data.List.Sort
import Mathlib.Data.String.Basic
import Omapkg.Lib.JsonParse
import Omapkg.Lib.Utf
/-!
# JSON of the client

`encoding/json` as the manifest client uses it: documents decode into maps and
lists with numbers kept as they are spelled, and encode again with sorted keys
and no HTML escapes. A map is the list of its entries in the order of the
keys. The field readers of `client.go` follow.
-/

namespace Omapkg.Client

open Json Utf

/-! ## Errors -/

/-- An `error`: a text, a format with the strings it quotes, or a text before
the error it wraps. -/
inductive GoError where
  | new (text : String)
  | errorf (format : String) (args : List String)
  | wrap (text : String) (cause : GoError)
  deriving DecidableEq

/-- A value of type `any` that a document decodes to. -/
abbrev GoValue := Json String

/-- A `map[string]any`, by ascending key. -/
abbrev Object := List (String × GoValue)

/-! ## Decoding -/

/-- `m[k] = v`, in a map by ascending key. -/
def setKey {α : Type} (k : String) (v : α) : List (String × α) → List (String × α)
  | [] => [(k, v)]
  | (k', v') :: ms =>
    if k = k' then (k, v) :: ms
    else if k < k' then (k, v) :: (k', v') :: ms
    else (k', v') :: setKey k v ms

mutual
/-- The value a text decodes to; of a repeated name the last counts. -/
def goValue : Json String → GoValue
  | .arr xs => .arr (goElems xs)
  | .obj ms => .obj (goMembers [] ms)
  | .null => .null
  | .bool b => .bool b
  | .num n => .num n
  | .str s => .str s
def goElems : List (Json String) → List GoValue
  | [] => []
  | x :: xs => goValue x :: goElems xs
def goMembers (m : Object) : List (String × Json String) → Object
  | [] => m
  | (k, v) :: ms => goMembers (setKey k (goValue v) m) ms
end

theorem goElems_eq (xs : List (Json String)) : goElems xs = xs.map goValue := by
  induction xs with
  | nil => rfl
  | cons x xs ih => rw [goElems, ih, List.map_cons]

mutual
/-- Every object has its keys in ascending order, none twice. -/
def Ascending : Json String → Prop
  | .arr xs => AscendingElems xs
  | .obj ms => ms.Pairwise (fun a b => a.1 < b.1) ∧ AscendingMembers ms
  | _ => True
def AscendingElems : List (Json String) → Prop
  | [] => True
  | x :: xs => Ascending x ∧ AscendingElems xs
def AscendingMembers : List (String × Json String) → Prop
  | [] => True
  | (_, v) :: ms => Ascending v ∧ AscendingMembers ms
end

theorem ascendingMembers_iff (ms : List (String × Json String)) :
    AscendingMembers ms ↔ ∀ m ∈ ms, Ascending m.2 := by
  induction ms with
  | nil => simp [AscendingMembers]
  | cons m ms ih => obtain ⟨k, v⟩ := m; simp [AscendingMembers, ih]

theorem setKey_last {α : Type} {k : String} {m : List (String × α)} (h : ∀ e ∈ m, e.1 < k) (v : α) :
    setKey k v m = m ++ [(k, v)] := by
  induction m with
  | nil => rfl
  | cons e m ih =>
    obtain ⟨k', v'⟩ := e
    have hk : k' < k := h (k', v') List.mem_cons_self
    rw [setKey, if_neg (ne_of_gt hk), if_neg (not_lt_of_gt hk), ih fun e he => h e (List.mem_cons_of_mem _ he)]
    rfl

mutual
/-- A value in order decodes to itself. -/
theorem goValue_ascending : ∀ v : Json String, Ascending v → goValue v = v
  | .null, _ => rfl
  | .bool _, _ => rfl
  | .num _, _ => rfl
  | .str _, _ => rfl
  | .arr xs, h => by rw [goValue, goElems_ascending xs h]
  | .obj ms, h => by rw [goValue, goMembers_ascending [] ms h.1 h.2]; rfl

theorem goElems_ascending : ∀ xs : List (Json String), AscendingElems xs → goElems xs = xs
  | [], _ => rfl
  | x :: xs, h => by rw [goElems, goValue_ascending x h.1, goElems_ascending xs h.2]

theorem goMembers_ascending : ∀ (m : Object) (ms : List (String × Json String)),
    (m ++ ms).Pairwise (fun a b => a.1 < b.1) → AscendingMembers ms → goMembers m ms = m ++ ms
  | m, [], _, _ => by rw [goMembers, List.append_nil]
  | m, (k, v) :: ms, hp, h => by
    have hlast : ∀ e ∈ m, e.1 < k := fun e he =>
      (List.pairwise_append.mp hp).2.2 e he (k, v) List.mem_cons_self
    have hp' : ((m ++ [(k, v)]) ++ ms).Pairwise (fun a b => a.1 < b.1) := by
      rwa [List.append_assoc, List.singleton_append]
    rw [goMembers, goValue_ascending v h.1, setKey_last hlast, goMembers_ascending _ ms hp' h.2,
      List.append_assoc, List.singleton_append]
end

/-! ## Maps in order -/

theorem setKey_perm {α : Type} {k : String} {m : List (String × α)} (h : ∀ e ∈ m, e.1 ≠ k) (v : α) :
    (setKey k v m).Perm ((k, v) :: m) := by
  induction m with
  | nil => exact .refl _
  | cons e m ih =>
    obtain ⟨k', v'⟩ := e
    have hk : k ≠ k' := fun he => h (k', v') List.mem_cons_self he.symm
    rw [setKey, if_neg hk]
    split
    · exact .refl _
    · exact ((ih fun e he => h e (List.mem_cons_of_mem _ he)).cons _).trans (.swap _ _ _)

theorem setKey_pairwise {α : Type} {k : String} {m : List (String × α)} (h : ∀ e ∈ m, e.1 ≠ k)
    (hm : m.Pairwise fun a b => a.1 < b.1) (v : α) : (setKey k v m).Pairwise fun a b => a.1 < b.1 := by
  induction m with
  | nil => exact List.pairwise_singleton _ _
  | cons e m ih =>
    obtain ⟨k', v'⟩ := e
    have hk : k ≠ k' := fun he => h (k', v') List.mem_cons_self he.symm
    have hrest : ∀ e ∈ m, e.1 ≠ k := fun e he => h e (List.mem_cons_of_mem _ he)
    obtain ⟨hhead, htail⟩ := List.pairwise_cons.mp hm
    rw [setKey, if_neg hk]
    split
    · rename_i hlt
      refine List.pairwise_cons.mpr ⟨fun e he => ?_, hm⟩
      rcases List.mem_cons.mp he with rfl | he
      · exact hlt
      · exact lt_trans hlt (hhead e he)
    · rename_i hlt
      refine List.pairwise_cons.mpr ⟨fun e he => ?_, ih hrest htail⟩
      rcases List.mem_cons.mp ((setKey_perm hrest v).mem_iff.mp he) with rfl | he
      · exact lt_of_le_of_ne (not_lt.mp hlt) hk.symm
      · exact hhead e he

/-- An object without repeated names decodes to its members, by ascending key. -/
theorem goMembers_spec (ms : List (String × Json String)) (m : Object) (hm : m.Pairwise fun a b => a.1 < b.1)
    (hn : (m ++ ms).map Prod.fst |>.Nodup) :
    (goMembers m ms).Perm (m ++ ms.map fun e => (e.1, goValue e.2)) ∧
      (goMembers m ms).Pairwise fun a b => a.1 < b.1 := by
  induction ms generalizing m with
  | nil => rw [goMembers, List.map_nil, List.append_nil]; exact ⟨.refl _, hm⟩
  | cons e ms ih =>
    obtain ⟨k, v⟩ := e
    have hk : ∀ e ∈ m, e.1 ≠ k := fun e he heq => by
      rw [List.map_append, List.nodup_append] at hn
      exact hn.2.2 e.1 (List.mem_map_of_mem he) k (List.mem_cons_self) heq
    have hset := setKey_perm hk (goValue v)
    have hmid : (m ++ (k, v) :: ms).Perm ((k, v) :: (m ++ ms)) := List.perm_middle
    have hn' : ((setKey k (goValue v) m ++ ms).map Prod.fst).Nodup := by
      have hfst := ((hset.append_right ms).map Prod.fst).nodup_iff
      rw [List.cons_append, List.map_cons] at hfst
      rw [hfst]
      exact (hmid.map Prod.fst).nodup_iff.mp hn
    obtain ⟨hperm, hpair⟩ := ih (setKey k (goValue v) m) (setKey_pairwise hk hm (goValue v)) hn'
    rw [goMembers]
    refine ⟨hperm.trans ?_, hpair⟩
    rw [List.map_cons]
    exact (hset.append_right _).trans List.perm_middle.symm

/-! ## Encoding -/

/-- A character as the encoder writes it: the line and paragraph separators
are escaped even without HTML escapes. -/
def goEscape (c : Char) : List Char :=
  if c = '\u2028' ∨ c = '\u2029' then unitEscape c.toNat else escapeChar c

def goQuote (s : String) : List Char := '"' :: (s.toList.flatMap goEscape ++ ['"'])

theorem escapes_goEscape : Escapes goEscape := by
  intro c
  unfold goEscape
  split
  · rename_i h
    exact .inr ⟨rfl, by rcases h with rfl | rfl <;> decide⟩
  · exact .inl rfl

theorem reads_goQuote : Reads goQuote String.toList := by
  intro s
  refine ⟨s.toList.flatMap goEscape ++ ['"'], rfl, fun t => ?_⟩
  rw [List.append_assoc, List.singleton_append, lexString_escapes escapes_goEscape]

def canonicalMarshal (value : GoValue) : Bytes := encode (value.print goQuote)

/-- The nesting `encoding/json` allows. -/
def maxNestingDepth : Nat := 10000

/-- What `encoding/json` says of a text it cannot decode is left out. -/
def invalidJson : GoError := .errorf "manifest JSON is invalid: %w" []

/-- The canonical bytes of a manifest and its object. -/
def canonicalDocument (raw : Bytes) : Except GoError (Bytes × Object) :=
  match parse maxNestingDepth (decode raw) with
  | none => .error invalidJson
  | some (value, rest) =>
    match goValue value with
    | .obj object =>
      if skipWs rest = [] then .ok (canonicalMarshal (.obj object), object)
      else .error (.new "manifest contains trailing JSON")
    | .null => .error (.new "manifest must be a JSON object")
    | _ => .error invalidJson

/-! ## Fields -/

def stringField (object : Object) (key : String) : Option String :=
  match object.lookup key with
  | some (.str s) => some s
  | _ => none

def boolField (object : Object) (key : String) : Option Bool :=
  match object.lookup key with
  | some (.bool b) => some b
  | _ => none

def objectField (object : Object) (key : String) : Option Object :=
  match object.lookup key with
  | some (.obj o) => some o
  | _ => none

def arrayField (object : Object) (key : String) : Option (List GoValue) :=
  match object.lookup key with
  | some (.arr xs) => some xs
  | _ => none

def numeralField (object : Object) (key : String) : Option Numeral :=
  match object.lookup key with
  | some (.num n) => some n
  | _ => none

def stringSlicePreserve (object : Object) (key : String) : List String :=
  ((arrayField object key).getD []).filterMap fun
    | .str s => some s
    | _ => none

def stringSliceField (object : Object) (key : String) : List String :=
  (stringSlicePreserve object key).insertionSort (· ≤ ·)

/-! ## Numbers -/

/-- `strconv.ParseInt` of a sign and digits, in base 10 and 64 bits. -/
def parseInt64 (sign digits : List Char) : Option Int :=
  if digits = [] then none
  else
    let n := Nat.ofDigitChars 10 digits 0
    if sign = ['-'] then (if n ≤ 2 ^ 63 then some (-n) else none)
    else if n < 2 ^ 63 then some n else none

/-- `fmt.Sscan` into an `int`: what follows the digits is not looked at. -/
def sscanInt (text : List Char) : Option Int :=
  let (sign, r) := lexSign text
  parseInt64 sign (digits r)

/-- `json.Number.Int64` and whether it had no error. A number out of range is
cut to the range; one that goes on after its digits is 0, unless the digits
alone leave 64 bits. -/
def numberInt64 (text : List Char) : Int × Bool :=
  let (sign, r) := lexSign text
  let n := Nat.ofDigitChars 10 (digits r) 0
  if afterDigits r ≠ [] ∧ n < 2 ^ 64 then (0, false)
  else if sign = ['-'] then (if n ≤ 2 ^ 63 then (-n, true) else (-2 ^ 63, false))
  else if n < 2 ^ 63 then (n, true)
  else (2 ^ 63 - 1, false)

def strconvParseUintFrom (result : Nat) : List Char → Option Nat
  | [] => some result
  | c :: cs =>
    if c < '0' ∨ c > '9' then none
    else if result > (2 ^ 64 - 1 - (c.toNat - 48)) / 10 then none
    else strconvParseUintFrom (result * 10 + (c.toNat - 48)) cs

def strconvParseUint (text : List Char) : Option Nat :=
  if text = [] then none else strconvParseUintFrom 0 text

def numberFieldOK (object : Object) (key : String) : Option Int :=
  (numeralField object key).bind fun n => sscanInt n.text

def numberField (object : Object) (key : String) : Int := (numberFieldOK object key).getD 0

def int64Field (object : Object) (key : String) : Int × Bool :=
  match numeralField object key with
  | some n => numberInt64 n.text
  | none => (0, false)

def uint64Field (object : Object) (key : String) : Option Nat :=
  (numeralField object key).bind fun n => strconvParseUint n.text

theorem lexSign_toDigits (n : Nat) : lexSign (Nat.toDigits 10 n) = ([], Nat.toDigits 10 n) := by
  have hall := toDigits_isDigit n
  unfold lexSign
  split
  · rename_i r he
    rw [he] at hall
    exact absurd (hall '-' List.mem_cons_self) (by decide)
  · rfl

theorem parseInt64_toDigits {n : Nat} (h : n < 2 ^ 63) : parseInt64 [] (Nat.toDigits 10 n) = some (n : Int) := by
  simp only [parseInt64, Nat.toDigits_ne_nil, if_false, Nat.ofDigitChars_ten_toDigits, h, if_true]
  rfl

@[simp]
theorem sscanInt_ofNat {n : Nat} (h : n < 2 ^ 63) : sscanInt (Numeral.ofNat n).text = some (n : Int) := by
  obtain ⟨hd, -⟩ := digits_of_all (toDigits_isDigit n)
  simp only [sscanInt, Numeral.ofNat, lexSign_toDigits, hd, parseInt64_toDigits h]

@[simp]
theorem numberInt64_ofNat {n : Nat} (h : n < 2 ^ 63) : numberInt64 (Numeral.ofNat n).text = ((n : Int), true) := by
  obtain ⟨hd, ha⟩ := digits_of_all (toDigits_isDigit n)
  simp only [numberInt64, Numeral.ofNat, lexSign_toDigits, hd, ha, Nat.ofDigitChars_ten_toDigits, ne_eq,
    not_true_eq_false, false_and, if_false, reduceCtorEq, h, if_true]

theorem ofDigitChars_ge (cs : List Char) (r : Nat) : r ≤ Nat.ofDigitChars 10 cs r := by
  induction cs generalizing r with
  | nil => simp
  | cons c cs ih => rw [Nat.ofDigitChars_cons]; exact le_trans (by omega) (ih _)

theorem strconvParseUintFrom_digits (cs : List Char) (h : ∀ c ∈ cs, c.isDigit = true) (r : Nat)
    (hb : Nat.ofDigitChars 10 cs r < 2 ^ 64) :
    strconvParseUintFrom r cs = some (Nat.ofDigitChars 10 cs r) := by
  induction cs generalizing r with
  | nil => simp [strconvParseUintFrom]
  | cons c cs ih =>
    rw [Nat.ofDigitChars_cons] at hb ⊢
    have hd := h c List.mem_cons_self
    have hge := ofDigitChars_ge cs (10 * r + (c.toNat - '0'.toNat))
    have h0 : '0'.toNat = 48 := rfl
    have hc : '0' ≤ c ∧ c ≤ '9' := by
      simp only [Char.isDigit, Bool.and_eq_true, decide_eq_true_eq] at hd
      exact hd
    have hn : c.toNat ≤ 57 := hc.2
    rw [strconvParseUintFrom, if_neg (by rw [not_or, not_lt, not_lt]; exact hc), if_neg (by omega),
      Nat.mul_comm r 10]
    exact ih (fun d hd => h d (List.mem_cons_of_mem _ hd)) _ hb

@[simp]
theorem strconvParseUint_ofNat {n : Nat} (h : n < 2 ^ 64) :
    strconvParseUint (Numeral.ofNat n).text = some n := by
  simp only [strconvParseUint, Numeral.ofNat, Nat.toDigits_ne_nil, if_false]
  rw [strconvParseUintFrom_digits _ (toDigits_isDigit n) 0 (by rwa [Nat.ofDigitChars_ten_toDigits]),
    Nat.ofDigitChars_ten_toDigits]

end Omapkg.Client
