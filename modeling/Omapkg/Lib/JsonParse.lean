import Omapkg.Lib.JsonString
/-!
# Reading JSON texts

A recursive-descent parser. Unpaired surrogate escapes read as U+FFFD, and an
array or object deeper than the given limit is refused. `parse_print` is the
round trip with the printer of `Omapkg.Lib.Json`, for any quoting the string
lexer can read.
-/

namespace Json

variable {σ τ : Type}

/-! ## Values -/

def isWs (c : Char) : Bool := c = ' ' || c = '\t' || c = '\n' || c = '\r'

def skipWs (cs : List Char) : List Char := cs.dropWhile isWs

/-- The rest of a text that starts with `w`. -/
def lexWord (w : List Char) (cs : List Char) : Option (List Char) :=
  if w.isPrefixOf cs then some (cs.drop w.length) else none

mutual
/-- The value a text starts with and what follows it; `fuel` bounds the calls
and `depth` the nesting. -/
def parseValue : Nat → Nat → List Char → Option (Json String × List Char)
  | 0, _, _ => none
  | fuel + 1, depth, cs =>
    match skipWs cs with
    | [] => none
    | c :: r =>
      if c = '"' then (lexString r).map fun x => (.str (String.ofList x.1), x.2)
      else if c = '[' then
        if depth = 0 then none
        else (parseElems fuel (depth - 1) r).map fun x => (.arr x.1, x.2)
      else if c = '{' then
        if depth = 0 then none
        else (parseMembers fuel (depth - 1) r).map fun x => (.obj x.1, x.2)
      else if c = 'n' then (lexWord ['u', 'l', 'l'] r).map fun r => (.null, r)
      else if c = 't' then (lexWord ['r', 'u', 'e'] r).map fun r => (.bool true, r)
      else if c = 'f' then (lexWord ['a', 'l', 's', 'e'] r).map fun r => (.bool false, r)
      else
        match lexNumber (c :: r) with
        | some (text, r) => if h : lexNumber text = some (text, []) then some (.num ⟨text, h⟩, r) else none
        | none => none
/-- The elements after an opening bracket. -/
def parseElems : Nat → Nat → List Char → Option (List (Json String) × List Char)
  | 0, _, _ => none
  | fuel + 1, depth, cs =>
    match skipWs cs with
    | ']' :: r => some ([], r)
    | r => do
      let (x, r) ← parseValue fuel depth r
      let (xs, r) ← parseMoreElems fuel depth r
      some (x :: xs, r)
def parseMoreElems : Nat → Nat → List Char → Option (List (Json String) × List Char)
  | 0, _, _ => none
  | fuel + 1, depth, cs =>
    match skipWs cs with
    | ']' :: r => some ([], r)
    | ',' :: r => do
      let (x, r) ← parseValue fuel depth r
      let (xs, r) ← parseMoreElems fuel depth r
      some (x :: xs, r)
    | _ => none
/-- One member, its white space included. -/
def parseMember : Nat → Nat → List Char → Option ((String × Json String) × List Char)
  | 0, _, _ => none
  | fuel + 1, depth, cs =>
    match skipWs cs with
    | '"' :: r => do
      let (k, r) ← lexString r
      match skipWs r with
      | ':' :: r => do
        let (v, r) ← parseValue fuel depth r
        some ((String.ofList k, v), r)
      | _ => none
    | _ => none
/-- The members after an opening brace. -/
def parseMembers : Nat → Nat → List Char → Option (List (String × Json String) × List Char)
  | 0, _, _ => none
  | fuel + 1, depth, cs =>
    match skipWs cs with
    | '}' :: r => some ([], r)
    | r => do
      let (m, r) ← parseMember fuel depth r
      let (ms, r) ← parseMoreMembers fuel depth r
      some (m :: ms, r)
def parseMoreMembers : Nat → Nat → List Char → Option (List (String × Json String) × List Char)
  | 0, _, _ => none
  | fuel + 1, depth, cs =>
    match skipWs cs with
    | '}' :: r => some ([], r)
    | ',' :: r => do
      let (m, r) ← parseMember fuel depth r
      let (ms, r) ← parseMoreMembers fuel depth r
      some (m :: ms, r)
    | _ => none
end

/-- The first value of a text and what follows it. -/
def parse (maxDepth : Nat) (cs : List Char) : Option (Json String × List Char) :=
  parseValue (2 * cs.length + 1) maxDepth cs

/-! ## The round trip -/

/-- The string lexer reads what `q` spells, as the characters `dec` gives. -/
def Reads (q : σ → List Char) (dec : σ → List Char) : Prop :=
  ∀ s, ∃ body, q s = '"' :: body ∧ ∀ t, lexString (body ++ t) = some (dec s, t)

theorem skipWs_cons {c : Char} (h : isWs c = false) (r : List Char) : skipWs (c :: r) = c :: r := by
  simp [skipWs, h]

theorem isWs_of_digit {c : Char} (h : c.isDigit = true) : isWs c = false := by
  simp only [isWs, Bool.or_eq_false_iff, decide_eq_false_iff_not]
  refine ⟨⟨⟨?_, ?_⟩, ?_⟩, ?_⟩ <;> (rintro rfl; revert h; decide)

theorem digit_ne {c : Char} (h : c = '-' ∨ c.isDigit = true) :
    isWs c = false ∧ c ≠ '"' ∧ c ≠ '[' ∧ c ≠ '{' ∧ c ≠ 'n' ∧ c ≠ 't' ∧ c ≠ 'f' ∧ c ≠ ']' ∧ c ≠ '}' := by
  rcases h with rfl | h
  · decide
  · refine ⟨isWs_of_digit h, ?_, ?_, ?_, ?_, ?_, ?_, ?_, ?_⟩ <;> (rintro rfl; revert h; decide)

section
variable {q : σ → List Char} {dec : σ → List Char}

/-- The text of a value starts with a character that is no white space and
closes nothing. -/
theorem print_head (hq : Reads q dec) (v : Json σ) :
    ∃ c r, v.print q = c :: r ∧ isWs c = false ∧ c ≠ ']' ∧ c ≠ '}' := by
  cases v with
  | null => exact ⟨_, _, rfl, by decide⟩
  | bool b => cases b <;> exact ⟨_, _, rfl, by decide⟩
  | num n =>
    obtain ⟨c, r, h, hc⟩ := n.head
    obtain ⟨hw, -, -, -, -, -, -, h1, h2⟩ := digit_ne hc
    exact ⟨c, r, h, hw, h1, h2⟩
  | str s =>
    obtain ⟨b, hb, -⟩ := hq s
    exact ⟨_, b, hb, by decide⟩
  | arr xs => exact ⟨_, _, by rw [print], by decide⟩
  | obj ms => exact ⟨_, _, by rw [print], by decide⟩

theorem stops_moreElems (xs : List (Json σ)) (t : List Char) : Stops (printMoreElems q xs ++ t) := by
  cases xs <;> rw [printMoreElems] <;> exact stops_cons (by simp)

theorem stops_moreMembers (ms : List (σ × Json σ)) (t : List Char) : Stops (printMoreMembers q ms ++ t) := by
  rcases ms with _ | ⟨⟨k, v⟩, ms⟩ <;> rw [printMoreMembers] <;> exact stops_cons (by simp)

mutual
/-- Reading a printed value gives the value, and leaves what follows it. -/
theorem parseValue_print (hq : Reads q dec) : ∀ (v : Json σ) (fuel d : Nat) (t : List Char),
    v.size ≤ fuel → v.depth ≤ d → Stops t →
    parseValue fuel d (v.print q ++ t) = some (v.map (String.ofList ∘ dec), t)
  | v, 0, _, _, hf, _, _ => by cases v <;> simp [size] at hf
  | .null, fuel + 1, d, t, _, _, _ => by
    simp [print, parseValue, skipWs_cons (show isWs 'n' = false by decide), lexWord, map]
  | .bool true, fuel + 1, d, t, _, _, _ => by
    simp [print, parseValue, skipWs_cons (show isWs 't' = false by decide), lexWord, map]
  | .bool false, fuel + 1, d, t, _, _, _ => by
    simp [print, parseValue, skipWs_cons (show isWs 'f' = false by decide), lexWord, map]
  | .num n, fuel + 1, d, t, _, _, ht => by
    obtain ⟨c, r, hc, hd⟩ := n.head
    obtain ⟨hw, h1, h2, h3, h4, h5, h6, -, -⟩ := digit_ne hd
    have hl := n.lex ht
    rw [hc, List.cons_append] at hl
    rw [print, hc, List.cons_append, parseValue, skipWs_cons hw]
    simp only [h1, h2, h3, h4, h5, h6, if_false, hl]
    rw [dif_pos (by rw [← hc]; exact n.literal)]
    simp only [map, Option.some.injEq, Prod.mk.injEq, and_true, Json.num.injEq]
    cases n
    simp only at hc
    subst hc
    rfl
  | .str s, fuel + 1, d, t, _, _, _ => by
    obtain ⟨b, hb, hr⟩ := hq s
    rw [print, hb, List.cons_append, parseValue, skipWs_cons (by decide)]
    simp [hr, map]
  | .arr xs, fuel + 1, d, t, hf, hd, _ => by
    simp only [size, depth] at hf hd
    rw [print, List.cons_append, parseValue, skipWs_cons (by decide)]
    simp only [Char.reduceEq, if_false, if_true, show d ≠ 0 by omega]
    rw [parseElems_print hq xs fuel (d - 1) t (by omega) (by omega)]
    rfl
  | .obj ms, fuel + 1, d, t, hf, hd, _ => by
    simp only [size, depth] at hf hd
    rw [print, List.cons_append, parseValue, skipWs_cons (by decide)]
    simp only [Char.reduceEq, if_false, if_true, show d ≠ 0 by omega]
    rw [parseMembers_print hq ms fuel (d - 1) t (by omega) (by omega)]
    rfl

theorem parseElems_print (hq : Reads q dec) : ∀ (xs : List (Json σ)) (fuel d : Nat) (t : List Char),
    sizeElems xs ≤ fuel → depthElems xs ≤ d →
    parseElems fuel d (printElems q xs ++ t) = some (mapElems (String.ofList ∘ dec) xs, t)
  | xs, 0, _, _, hf, _ => by cases xs <;> simp [sizeElems] at hf
  | [], fuel + 1, d, t, _, _ => by
    rw [printElems, List.cons_append, parseElems, skipWs_cons (by decide)]
    rfl
  | x :: xs, fuel + 1, d, t, hf, hd => by
    simp only [sizeElems, depthElems] at hf hd
    obtain ⟨c, r, hc, hw, hne, -⟩ := print_head hq x
    have hx := parseValue_print hq x fuel d (printMoreElems q xs ++ t) (by omega) (by omega)
      (stops_moreElems xs t)
    rw [printElems, List.append_assoc, parseElems]
    rw [hc, List.cons_append] at hx ⊢
    rw [skipWs_cons hw]
    split
    · rename_i he; exact absurd (List.cons.inj he).1 hne
    · rw [hx]
      simp only [Option.bind_eq_bind, Option.bind_some]
      rw [parseMoreElems_print hq xs fuel d t (by omega) (by omega)]
      rfl

theorem parseMoreElems_print (hq : Reads q dec) : ∀ (xs : List (Json σ)) (fuel d : Nat) (t : List Char),
    sizeElems xs ≤ fuel → depthElems xs ≤ d →
    parseMoreElems fuel d (printMoreElems q xs ++ t) = some (mapElems (String.ofList ∘ dec) xs, t)
  | xs, 0, _, _, hf, _ => by cases xs <;> simp [sizeElems] at hf
  | [], fuel + 1, d, t, _, _ => by
    rw [printMoreElems, List.cons_append, parseMoreElems, skipWs_cons (by decide)]
    rfl
  | x :: xs, fuel + 1, d, t, hf, hd => by
    simp only [sizeElems, depthElems] at hf hd
    rw [printMoreElems, List.cons_append, List.append_assoc, parseMoreElems, skipWs_cons (by decide)]
    simp only [Option.bind_eq_bind]
    rw [parseValue_print hq x fuel d _ (by omega) (by omega) (stops_moreElems xs t), Option.bind_some,
      parseMoreElems_print hq xs fuel d t (by omega) (by omega)]
    rfl

theorem parseMember_print (hq : Reads q dec) (k : σ) : ∀ (v : Json σ) (fuel d : Nat) (t : List Char),
    v.size + 1 ≤ fuel → v.depth ≤ d → Stops t →
    parseMember fuel d (q k ++ ':' :: (v.print q ++ t)) =
      some ((String.ofList (dec k), v.map (String.ofList ∘ dec)), t)
  | v, 0, _, _, hf, _, _ => by omega
  | v, fuel + 1, d, t, hf, hd, ht => by
    obtain ⟨b, hb, hr⟩ := hq k
    rw [hb, List.cons_append, parseMember, skipWs_cons (by decide)]
    simp only [hr, Option.bind_eq_bind, Option.bind_some]
    rw [skipWs_cons (by decide)]
    simp only
    rw [parseValue_print hq v fuel d t (by omega) hd ht]
    rfl

theorem parseMembers_print (hq : Reads q dec) : ∀ (ms : List (σ × Json σ)) (fuel d : Nat) (t : List Char),
    sizeMembers ms ≤ fuel → depthMembers ms ≤ d →
    parseMembers fuel d (printMembers q ms ++ t) = some (mapMembers (String.ofList ∘ dec) ms, t)
  | ms, 0, _, _, hf, _ => by cases ms <;> simp [sizeMembers] at hf
  | [], fuel + 1, d, t, _, _ => by
    rw [printMembers, List.cons_append, parseMembers, skipWs_cons (by decide)]
    rfl
  | (k, v) :: ms, fuel + 1, d, t, hf, hd => by
    simp only [sizeMembers, depthMembers] at hf hd
    obtain ⟨b, hb, -⟩ := hq k
    have hm := parseMember_print hq k v fuel d (printMoreMembers q ms ++ t) (by omega) (by omega)
      (stops_moreMembers ms t)
    rw [printMembers, List.append_assoc, List.cons_append, List.append_assoc, parseMembers]
    rw [hb, List.cons_append] at hm ⊢
    rw [skipWs_cons (by decide)]
    split
    · rename_i he; exact absurd (List.cons.inj he).1 (by decide)
    · simp only [Option.bind_eq_bind]
      rw [hm, Option.bind_some, parseMoreMembers_print hq ms fuel d t (by omega) (by omega)]
      rfl

theorem parseMoreMembers_print (hq : Reads q dec) : ∀ (ms : List (σ × Json σ)) (fuel d : Nat) (t : List Char),
    sizeMembers ms ≤ fuel → depthMembers ms ≤ d →
    parseMoreMembers fuel d (printMoreMembers q ms ++ t) = some (mapMembers (String.ofList ∘ dec) ms, t)
  | ms, 0, _, _, hf, _ => by cases ms <;> simp [sizeMembers] at hf
  | [], fuel + 1, d, t, _, _ => by
    rw [printMoreMembers, List.cons_append, parseMoreMembers, skipWs_cons (by decide)]
    rfl
  | (k, v) :: ms, fuel + 1, d, t, hf, hd => by
    simp only [sizeMembers, depthMembers] at hf hd
    rw [printMoreMembers, List.cons_append, List.append_assoc, List.cons_append, List.append_assoc,
      parseMoreMembers, skipWs_cons (by decide)]
    simp only [Option.bind_eq_bind]
    rw [parseMember_print hq k v fuel d _ (by omega) (by omega) (stops_moreMembers ms t), Option.bind_some,
      parseMoreMembers_print hq ms fuel d t (by omega) (by omega)]
    rfl
end

/-! ## Texts are long enough -/

mutual
theorem size_le (hq : Reads q dec) : ∀ v : Json σ, v.size + 1 ≤ 2 * (v.print q).length
  | .null => by simp [size, print]
  | .bool true => by simp [size, print]
  | .bool false => by simp [size, print]
  | .num n => by
    obtain ⟨c, r, hc, -⟩ := n.head
    simp only [size, print, hc, List.length_cons]
    omega
  | .str s => by
    obtain ⟨b, hb, -⟩ := hq s
    simp only [size, print, hb, List.length_cons]
    omega
  | .arr xs => by
    have := sizeElems_le hq xs
    simp only [size, print, List.length_cons]
    omega
  | .obj ms => by
    have := sizeMembers_le hq ms
    simp only [size, print, List.length_cons]
    omega

theorem sizeElems_le (hq : Reads q dec) : ∀ xs : List (Json σ), sizeElems xs ≤ 2 * (printElems q xs).length
  | [] => by simp [sizeElems, printElems]
  | x :: xs => by
    have h1 := size_le hq x
    have h2 := sizeMoreElems_le hq xs
    simp only [sizeElems, printElems, List.length_append]
    omega

theorem sizeMoreElems_le (hq : Reads q dec) : ∀ xs : List (Json σ),
    sizeElems xs ≤ 2 * (printMoreElems q xs).length
  | [] => by simp [sizeElems, printMoreElems]
  | x :: xs => by
    have h1 := size_le hq x
    have h2 := sizeMoreElems_le hq xs
    simp only [sizeElems, printMoreElems, List.length_append, List.length_cons]
    omega

theorem sizeMembers_le (hq : Reads q dec) : ∀ ms : List (σ × Json σ),
    sizeMembers ms ≤ 2 * (printMembers q ms).length
  | [] => by simp [sizeMembers, printMembers]
  | (k, v) :: ms => by
    have h1 := size_le hq v
    have h2 := sizeMoreMembers_le hq ms
    simp only [sizeMembers, printMembers, List.length_append, List.length_cons]
    omega

theorem sizeMoreMembers_le (hq : Reads q dec) : ∀ ms : List (σ × Json σ),
    sizeMembers ms ≤ 2 * (printMoreMembers q ms).length
  | [] => by simp [sizeMembers, printMoreMembers]
  | (k, v) :: ms => by
    have h1 := size_le hq v
    have h2 := sizeMoreMembers_le hq ms
    simp only [sizeMembers, printMoreMembers, List.length_append, List.length_cons]
    omega
end

/-- A printed value, up to the nesting limit, is read back, and what follows
it is left. -/
theorem parse_print (hq : Reads q dec) (v : Json σ) {maxDepth : Nat} (hd : v.depth ≤ maxDepth)
    {t : List Char} (ht : Stops t) :
    parse maxDepth (v.print q ++ t) = some (v.map (String.ofList ∘ dec), t) := by
  refine parseValue_print hq v _ maxDepth t ?_ hd ht
  have := size_le hq v
  simp only [List.length_append]
  omega

end

end Json
