import Omapkg.Lib.JsonParse
/-!
# Reading JSON values back

A reader of JSON texts whose strings are whatever a given lexer makes of them.
`read_print` is the round trip with the printer of `Omapkg.Lib.Json` where the
lexer reads every string back as it was.
-/

namespace Json

variable {σ : Type}

section
variable (lex : List Char → Option (σ × List Char))

mutual
/-- The value a text starts with and what follows it; `fuel` bounds the calls. -/
def readValue : Nat → List Char → Option (Json σ × List Char)
  | 0, _ => none
  | fuel + 1, cs =>
    match skipWs cs with
    | [] => none
    | c :: r =>
      if c = '"' then (lex r).map fun x => (.str x.1, x.2)
      else if c = '[' then (readElems fuel r).map fun x => (.arr x.1, x.2)
      else if c = '{' then (readMembers fuel r).map fun x => (.obj x.1, x.2)
      else if c = 'n' then (lexWord ['u', 'l', 'l'] r).map fun r => (.null, r)
      else if c = 't' then (lexWord ['r', 'u', 'e'] r).map fun r => (.bool true, r)
      else if c = 'f' then (lexWord ['a', 'l', 's', 'e'] r).map fun r => (.bool false, r)
      else
        match lexNumber (c :: r) with
        | some (text, r) => if h : lexNumber text = some (text, []) then some (.num ⟨text, h⟩, r) else none
        | none => none
/-- The elements after an opening bracket. -/
def readElems : Nat → List Char → Option (List (Json σ) × List Char)
  | 0, _ => none
  | fuel + 1, cs =>
    match skipWs cs with
    | ']' :: r => some ([], r)
    | r => do
      let (x, r) ← readValue fuel r
      let (xs, r) ← readMoreElems fuel r
      some (x :: xs, r)
def readMoreElems : Nat → List Char → Option (List (Json σ) × List Char)
  | 0, _ => none
  | fuel + 1, cs =>
    match skipWs cs with
    | ']' :: r => some ([], r)
    | ',' :: r => do
      let (x, r) ← readValue fuel r
      let (xs, r) ← readMoreElems fuel r
      some (x :: xs, r)
    | _ => none
/-- One member, its white space included. -/
def readMember : Nat → List Char → Option ((σ × Json σ) × List Char)
  | 0, _ => none
  | fuel + 1, cs =>
    match skipWs cs with
    | '"' :: r => do
      let (k, r) ← lex r
      match skipWs r with
      | ':' :: r => do
        let (v, r) ← readValue fuel r
        some ((k, v), r)
      | _ => none
    | _ => none
/-- The members after an opening brace. -/
def readMembers : Nat → List Char → Option (List (σ × Json σ) × List Char)
  | 0, _ => none
  | fuel + 1, cs =>
    match skipWs cs with
    | '}' :: r => some ([], r)
    | r => do
      let (m, r) ← readMember fuel r
      let (ms, r) ← readMoreMembers fuel r
      some (m :: ms, r)
def readMoreMembers : Nat → List Char → Option (List (σ × Json σ) × List Char)
  | 0, _ => none
  | fuel + 1, cs =>
    match skipWs cs with
    | '}' :: r => some ([], r)
    | ',' :: r => do
      let (m, r) ← readMember fuel r
      let (ms, r) ← readMoreMembers fuel r
      some (m :: ms, r)
    | _ => none
end

/-- The value that a whole text is, white space aside. -/
def read (cs : List Char) : Option (Json σ) :=
  match readValue lex (2 * cs.length + 1) cs with
  | some (v, r) => if skipWs r = [] then some v else none
  | none => none

end

/-! ## The round trip -/

/-- The lexer reads every string back that `q` spells. -/
def ReadsBack (q : σ → List Char) (lex : List Char → Option (σ × List Char)) : Prop :=
  ∀ s, ∃ body, q s = '"' :: body ∧ ∀ t, lex (body ++ t) = some (s, t)

section
variable {q : σ → List Char} {dec : σ → List Char} {lex : List Char → Option (σ × List Char)}

mutual
/-- Reading a printed value gives the value, and leaves what follows it. -/
theorem readValue_print (hd : Reads q dec) (hq : ReadsBack q lex) : ∀ (v : Json σ) (fuel : Nat) (t : List Char),
    v.size ≤ fuel → Stops t → readValue lex fuel (v.print q ++ t) = some (v, t)
  | v, 0, _, hf, _ => by cases v <;> simp [size] at hf
  | .null, fuel + 1, t, _, _ => by
    simp [print, readValue, skipWs_cons (show isWs 'n' = false by decide), lexWord]
  | .bool true, fuel + 1, t, _, _ => by
    simp [print, readValue, skipWs_cons (show isWs 't' = false by decide), lexWord]
  | .bool false, fuel + 1, t, _, _ => by
    simp [print, readValue, skipWs_cons (show isWs 'f' = false by decide), lexWord]
  | .num n, fuel + 1, t, _, ht => by
    obtain ⟨c, r, hc, hdigit⟩ := n.head
    obtain ⟨hw, h1, h2, h3, h4, h5, h6, -, -⟩ := digit_ne hdigit
    have hl := n.lex ht
    rw [hc, List.cons_append] at hl
    rw [print, hc, List.cons_append, readValue, skipWs_cons hw]
    simp only [h1, h2, h3, h4, h5, h6, if_false, hl]
    rw [dif_pos (by rw [← hc]; exact n.literal)]
    simp only [Option.some.injEq, Prod.mk.injEq, and_true, Json.num.injEq]
    cases n
    simp only at hc
    subst hc
    rfl
  | .str s, fuel + 1, t, _, _ => by
    obtain ⟨b, hb, hr⟩ := hq s
    rw [print, hb, List.cons_append, readValue, skipWs_cons (by decide)]
    simp [hr]
  | .arr xs, fuel + 1, t, hf, _ => by
    simp only [size] at hf
    rw [print, List.cons_append, readValue, skipWs_cons (by decide)]
    simp only [Char.reduceEq, if_false, if_true]
    rw [readElems_print hd hq xs fuel t (by omega)]
    rfl
  | .obj ms, fuel + 1, t, hf, _ => by
    simp only [size] at hf
    rw [print, List.cons_append, readValue, skipWs_cons (by decide)]
    simp only [Char.reduceEq, if_false, if_true]
    rw [readMembers_print hd hq ms fuel t (by omega)]
    rfl

theorem readElems_print (hd : Reads q dec) (hq : ReadsBack q lex) : ∀ (xs : List (Json σ)) (fuel : Nat) (t : List Char),
    sizeElems xs ≤ fuel → readElems lex fuel (printElems q xs ++ t) = some (xs, t)
  | xs, 0, _, hf => by cases xs <;> simp [sizeElems] at hf
  | [], fuel + 1, t, _ => by
    rw [printElems, List.cons_append, readElems, skipWs_cons (by decide)]
    rfl
  | x :: xs, fuel + 1, t, hf => by
    simp only [sizeElems] at hf
    obtain ⟨c, r, hc, hw, hne, -⟩ := print_head hd x
    have hx := readValue_print hd hq x fuel (printMoreElems q xs ++ t) (by omega) (stops_moreElems xs t)
    rw [printElems, List.append_assoc, readElems]
    rw [hc, List.cons_append] at hx ⊢
    rw [skipWs_cons hw]
    split
    · rename_i he; exact absurd (List.cons.inj he).1 hne
    · rw [hx]
      simp only [Option.bind_eq_bind, Option.bind_some]
      rw [readMoreElems_print hd hq xs fuel t (by omega)]
      rfl

theorem readMoreElems_print (hd : Reads q dec) (hq : ReadsBack q lex) : ∀ (xs : List (Json σ)) (fuel : Nat) (t : List Char),
    sizeElems xs ≤ fuel → readMoreElems lex fuel (printMoreElems q xs ++ t) = some (xs, t)
  | xs, 0, _, hf => by cases xs <;> simp [sizeElems] at hf
  | [], fuel + 1, t, _ => by
    rw [printMoreElems, List.cons_append, readMoreElems, skipWs_cons (by decide)]
    rfl
  | x :: xs, fuel + 1, t, hf => by
    simp only [sizeElems] at hf
    rw [printMoreElems, List.cons_append, List.append_assoc, readMoreElems, skipWs_cons (by decide)]
    simp only [Option.bind_eq_bind]
    rw [readValue_print hd hq x fuel _ (by omega) (stops_moreElems xs t), Option.bind_some,
      readMoreElems_print hd hq xs fuel t (by omega)]
    rfl

theorem readMember_print (hd : Reads q dec) (hq : ReadsBack q lex) (k : σ) : ∀ (v : Json σ) (fuel : Nat) (t : List Char),
    v.size + 1 ≤ fuel → Stops t → readMember lex fuel (q k ++ ':' :: (v.print q ++ t)) = some ((k, v), t)
  | v, 0, _, hf, _ => by omega
  | v, fuel + 1, t, hf, ht => by
    obtain ⟨b, hb, hr⟩ := hq k
    rw [hb, List.cons_append, readMember, skipWs_cons (by decide)]
    simp only [hr, Option.bind_eq_bind, Option.bind_some]
    rw [skipWs_cons (by decide)]
    simp only
    rw [readValue_print hd hq v fuel t (by omega) ht]
    rfl

theorem readMembers_print (hd : Reads q dec) (hq : ReadsBack q lex) : ∀ (ms : List (σ × Json σ)) (fuel : Nat) (t : List Char),
    sizeMembers ms ≤ fuel → readMembers lex fuel (printMembers q ms ++ t) = some (ms, t)
  | ms, 0, _, hf => by cases ms <;> simp [sizeMembers] at hf
  | [], fuel + 1, t, _ => by
    rw [printMembers, List.cons_append, readMembers, skipWs_cons (by decide)]
    rfl
  | (k, v) :: ms, fuel + 1, t, hf => by
    simp only [sizeMembers] at hf
    obtain ⟨b, hb, -⟩ := hq k
    have hm := readMember_print hd hq k v fuel (printMoreMembers q ms ++ t) (by omega) (stops_moreMembers ms t)
    rw [printMembers, List.append_assoc, List.cons_append, List.append_assoc, readMembers]
    rw [hb, List.cons_append] at hm ⊢
    rw [skipWs_cons (by decide)]
    split
    · rename_i he; exact absurd (List.cons.inj he).1 (by decide)
    · simp only [Option.bind_eq_bind]
      rw [hm, Option.bind_some, readMoreMembers_print hd hq ms fuel t (by omega)]
      rfl

theorem readMoreMembers_print (hd : Reads q dec) (hq : ReadsBack q lex) : ∀ (ms : List (σ × Json σ)) (fuel : Nat)
    (t : List Char), sizeMembers ms ≤ fuel → readMoreMembers lex fuel (printMoreMembers q ms ++ t) = some (ms, t)
  | ms, 0, _, hf => by cases ms <;> simp [sizeMembers] at hf
  | [], fuel + 1, t, _ => by
    rw [printMoreMembers, List.cons_append, readMoreMembers, skipWs_cons (by decide)]
    rfl
  | (k, v) :: ms, fuel + 1, t, hf => by
    simp only [sizeMembers] at hf
    rw [printMoreMembers, List.cons_append, List.append_assoc, List.cons_append, List.append_assoc, readMoreMembers,
      skipWs_cons (by decide)]
    simp only [Option.bind_eq_bind]
    rw [readMember_print hd hq k v fuel _ (by omega) (stops_moreMembers ms t), Option.bind_some,
      readMoreMembers_print hd hq ms fuel t (by omega)]
    rfl
end

/-- A printed value is read back. -/
theorem read_print (hd : Reads q dec) (hq : ReadsBack q lex) (v : Json σ) : read lex (v.print q) = some v := by
  have hsize := size_le hd v
  have hread := readValue_print hd hq v (2 * (v.print q).length + 1) [] (by omega) stops_nil
  rw [List.append_nil] at hread
  rw [read, hread]
  rfl

theorem print_inj (hd : Reads q dec) (hq : ReadsBack q lex) {v w : Json σ} (h : v.print q = w.print q) : v = w := by
  have hv := read_print hd hq v
  rw [h, read_print hd hq w] at hv
  exact (Option.some.inj hv).symm

end

end Json
