import Omapkg.Lib.Numeral
/-!
# JSON values

Values whose strings are any type `σ`, and a printer that leaves the spelling
of strings to its caller. `print_eq_iff` says when two programs print the same
text: they do when they spell every string of the value alike.
-/

/-- A JSON value whose strings are values of `σ`. Objects keep their members
in order, repeated names included. -/
inductive Json (σ : Type) where
  | null
  | bool (b : Bool)
  | num (n : Json.Numeral)
  | str (s : σ)
  | arr (xs : List (Json σ))
  | obj (ms : List (σ × Json σ))

namespace Json

variable {σ τ ρ : Type}

mutual
/-- The value with every string and member name mapped. -/
def map (f : σ → τ) : Json σ → Json τ
  | .null => .null
  | .bool b => .bool b
  | .num n => .num n
  | .str s => .str (f s)
  | .arr xs => .arr (mapElems f xs)
  | .obj ms => .obj (mapMembers f ms)
def mapElems (f : σ → τ) : List (Json σ) → List (Json τ)
  | [] => []
  | x :: xs => x.map f :: mapElems f xs
def mapMembers (f : σ → τ) : List (σ × Json σ) → List (τ × Json τ)
  | [] => []
  | (k, v) :: ms => (f k, v.map f) :: mapMembers f ms
end

theorem mapElems_eq (f : σ → τ) (xs : List (Json σ)) : mapElems f xs = xs.map (Json.map f) := by
  induction xs with
  | nil => rfl
  | cons x xs ih => rw [mapElems, ih, List.map_cons]

theorem mapMembers_eq (f : σ → τ) (ms : List (σ × Json σ)) :
    mapMembers f ms = ms.map fun m => (f m.1, m.2.map f) := by
  induction ms with
  | nil => rfl
  | cons m ms ih => obtain ⟨k, v⟩ := m; rw [mapMembers, ih, List.map_cons]

mutual
theorem map_id : ∀ v : Json σ, v.map id = v
  | .null => rfl
  | .bool _ => rfl
  | .num _ => rfl
  | .str _ => rfl
  | .arr xs => by rw [map, mapElems_id xs]
  | .obj ms => by rw [map, mapMembers_id ms]

theorem mapElems_id : ∀ xs : List (Json σ), mapElems id xs = xs
  | [] => rfl
  | x :: xs => by rw [mapElems, map_id x, mapElems_id xs]

theorem mapMembers_id : ∀ ms : List (σ × Json σ), mapMembers id ms = ms
  | [] => rfl
  | (k, v) :: ms => by rw [mapMembers, map_id v, mapMembers_id ms, id]
end

mutual
/-- Every string and member name satisfies `P`. -/
def AllStr (P : σ → Prop) : Json σ → Prop
  | .str s => P s
  | .arr xs => AllElems P xs
  | .obj ms => AllMembers P ms
  | _ => True
def AllElems (P : σ → Prop) : List (Json σ) → Prop
  | [] => True
  | x :: xs => x.AllStr P ∧ AllElems P xs
def AllMembers (P : σ → Prop) : List (σ × Json σ) → Prop
  | [] => True
  | (k, v) :: ms => (P k ∧ v.AllStr P) ∧ AllMembers P ms
end

theorem allElems_iff (P : σ → Prop) (xs : List (Json σ)) : AllElems P xs ↔ ∀ x ∈ xs, x.AllStr P := by
  induction xs with
  | nil => simp [AllElems]
  | cons x xs ih => simp [AllElems, ih]

theorem allMembers_iff (P : σ → Prop) (ms : List (σ × Json σ)) :
    AllMembers P ms ↔ ∀ m ∈ ms, P m.1 ∧ m.2.AllStr P := by
  induction ms with
  | nil => simp [AllMembers]
  | cons m ms ih => obtain ⟨k, v⟩ := m; simp [AllMembers, ih]

mutual
theorem allStr_map {f : σ → τ} {P : τ → Prop} : ∀ v : Json σ, (v.map f).AllStr P ↔ v.AllStr fun s => P (f s)
  | .null => Iff.rfl
  | .bool _ => Iff.rfl
  | .num _ => Iff.rfl
  | .str _ => Iff.rfl
  | .arr xs => by rw [Json.map, AllStr, AllStr]; exact allElems_map xs
  | .obj ms => by rw [Json.map, AllStr, AllStr]; exact allMembers_map ms

theorem allElems_map {f : σ → τ} {P : τ → Prop} : ∀ xs : List (Json σ),
    AllElems P (mapElems f xs) ↔ AllElems (fun s => P (f s)) xs
  | [] => Iff.rfl
  | x :: xs => by rw [mapElems, AllElems, AllElems, allStr_map x, allElems_map xs]

theorem allMembers_map {f : σ → τ} {P : τ → Prop} : ∀ ms : List (σ × Json σ),
    AllMembers P (mapMembers f ms) ↔ AllMembers (fun s => P (f s)) ms
  | [] => Iff.rfl
  | (_, v) :: ms => by rw [mapMembers, AllMembers, AllMembers, allStr_map v, allMembers_map ms]
end

mutual
/-- How deeply arrays and objects nest. -/
def depth : Json σ → Nat
  | .arr xs => depthElems xs + 1
  | .obj ms => depthMembers ms + 1
  | _ => 0
def depthElems : List (Json σ) → Nat
  | [] => 0
  | x :: xs => max x.depth (depthElems xs)
def depthMembers : List (σ × Json σ) → Nat
  | [] => 0
  | (_, v) :: ms => max v.depth (depthMembers ms)
end

theorem depthElems_le_iff (xs : List (Json σ)) (d : Nat) : depthElems xs ≤ d ↔ ∀ x ∈ xs, x.depth ≤ d := by
  induction xs with
  | nil => simp [depthElems]
  | cons x xs ih => simp [depthElems, Nat.max_le, ih]

theorem depthMembers_le_iff (ms : List (σ × Json σ)) (d : Nat) :
    depthMembers ms ≤ d ↔ ∀ m ∈ ms, m.2.depth ≤ d := by
  induction ms with
  | nil => simp [depthMembers]
  | cons m ms ih => obtain ⟨k, v⟩ := m; simp [depthMembers, Nat.max_le, ih]

mutual
/-- A bound on how deeply the parser recurses on the value's text. -/
def size : Json σ → Nat
  | .arr xs => sizeElems xs + 1
  | .obj ms => sizeMembers ms + 1
  | _ => 1
def sizeElems : List (Json σ) → Nat
  | [] => 1
  | x :: xs => x.size + sizeElems xs + 1
def sizeMembers : List (σ × Json σ) → Nat
  | [] => 1
  | (_, v) :: ms => v.size + sizeMembers ms + 2
end

/-! ## Printing -/

mutual
/-- The compact text of a value; `q` spells a string with its quotes. -/
def print (q : σ → List Char) : Json σ → List Char
  | .null => ['n', 'u', 'l', 'l']
  | .bool true => ['t', 'r', 'u', 'e']
  | .bool false => ['f', 'a', 'l', 's', 'e']
  | .num n => n.text
  | .str s => q s
  | .arr xs => '[' :: printElems q xs
  | .obj ms => '{' :: printMembers q ms
/-- The elements of an array and its closing bracket. -/
def printElems (q : σ → List Char) : List (Json σ) → List Char
  | [] => [']']
  | x :: xs => x.print q ++ printMoreElems q xs
def printMoreElems (q : σ → List Char) : List (Json σ) → List Char
  | [] => [']']
  | x :: xs => ',' :: (x.print q ++ printMoreElems q xs)
/-- The members of an object and its closing brace. -/
def printMembers (q : σ → List Char) : List (σ × Json σ) → List Char
  | [] => ['}']
  | (k, v) :: ms => q k ++ ':' :: (v.print q ++ printMoreMembers q ms)
def printMoreMembers (q : σ → List Char) : List (σ × Json σ) → List Char
  | [] => ['}']
  | (k, v) :: ms => ',' :: (q k ++ ':' :: (v.print q ++ printMoreMembers q ms))
end

/-! ## Two spellings -/

/-- `q` spells `s` as `r` spells `f s` exactly when `P s`; a difference shows
whatever follows. -/
structure Spells (q : σ → List Char) (r : τ → List Char) (f : σ → τ) (P : σ → Prop) : Prop where
  same : ∀ s, P s → q s = r (f s)
  differ : ∀ s t t', q s ++ t = r (f s) ++ t' → P s ∧ t = t'

section
variable {q : σ → List Char} {r : τ → List Char} {f : σ → τ} {P : σ → Prop}

mutual
theorem print_same (h : Spells q r f P) : ∀ v : Json σ, v.AllStr P → v.print q = (v.map f).print r
  | .null, _ => rfl
  | .bool true, _ => rfl
  | .bool false, _ => rfl
  | .num _, _ => rfl
  | .str s, hv => h.same s hv
  | .arr xs, hv => by
    rw [print, map, print, printElems_same h xs hv]
  | .obj ms, hv => by
    rw [print, map, print, printMembers_same h ms hv]

theorem printElems_same (h : Spells q r f P) : ∀ xs : List (Json σ), AllElems P xs →
    printElems q xs = printElems r (mapElems f xs)
  | [], _ => rfl
  | x :: xs, hx => by
    rw [printElems, mapElems, printElems, print_same h x hx.1, printMoreElems_same h xs hx.2]

theorem printMoreElems_same (h : Spells q r f P) : ∀ xs : List (Json σ), AllElems P xs →
    printMoreElems q xs = printMoreElems r (mapElems f xs)
  | [], _ => rfl
  | x :: xs, hx => by
    rw [printMoreElems, mapElems, printMoreElems, print_same h x hx.1, printMoreElems_same h xs hx.2]

theorem printMembers_same (h : Spells q r f P) : ∀ ms : List (σ × Json σ), AllMembers P ms →
    printMembers q ms = printMembers r (mapMembers f ms)
  | [], _ => rfl
  | (k, v) :: ms, hm => by
    rw [printMembers, mapMembers, printMembers, h.same k hm.1.1, print_same h v hm.1.2,
      printMoreMembers_same h ms hm.2]

theorem printMoreMembers_same (h : Spells q r f P) : ∀ ms : List (σ × Json σ), AllMembers P ms →
    printMoreMembers q ms = printMoreMembers r (mapMembers f ms)
  | [], _ => rfl
  | (k, v) :: ms, hm => by
    rw [printMoreMembers, mapMembers, printMoreMembers, h.same k hm.1.1, print_same h v hm.1.2,
      printMoreMembers_same h ms hm.2]
end

mutual
/-- Two equal texts that start with the two spellings of a value agree on its
strings and on what follows it. -/
theorem print_differ (h : Spells q r f P) : ∀ (v : Json σ) (t t' : List Char),
    v.print q ++ t = (v.map f).print r ++ t' → v.AllStr P ∧ t = t'
  | .null, _, _, he => ⟨trivial, List.append_cancel_left he⟩
  | .bool true, _, _, he => ⟨trivial, List.append_cancel_left he⟩
  | .bool false, _, _, he => ⟨trivial, List.append_cancel_left he⟩
  | .num _, _, _, he => ⟨trivial, List.append_cancel_left he⟩
  | .str s, t, t', he => h.differ s t t' he
  | .arr xs, t, t', he => printElems_differ h xs t t' (List.cons.inj he).2
  | .obj ms, t, t', he => printMembers_differ h ms t t' (List.cons.inj he).2

theorem printElems_differ (h : Spells q r f P) : ∀ (xs : List (Json σ)) (t t' : List Char),
    printElems q xs ++ t = printElems r (mapElems f xs) ++ t' → AllElems P xs ∧ t = t'
  | [], _, _, he => ⟨trivial, List.append_cancel_left he⟩
  | x :: xs, t, t', he => by
    rw [printElems, mapElems, printElems, List.append_assoc, List.append_assoc] at he
    obtain ⟨hx, he⟩ := print_differ h x _ _ he
    obtain ⟨hxs, ht⟩ := printMoreElems_differ h xs t t' he
    exact ⟨⟨hx, hxs⟩, ht⟩

theorem printMoreElems_differ (h : Spells q r f P) : ∀ (xs : List (Json σ)) (t t' : List Char),
    printMoreElems q xs ++ t = printMoreElems r (mapElems f xs) ++ t' → AllElems P xs ∧ t = t'
  | [], _, _, he => ⟨trivial, List.append_cancel_left he⟩
  | x :: xs, t, t', he => by
    rw [printMoreElems, mapElems, printMoreElems, List.cons_append, List.cons_append, List.append_assoc,
      List.append_assoc] at he
    obtain ⟨hx, he⟩ := print_differ h x _ _ (List.cons.inj he).2
    obtain ⟨hxs, ht⟩ := printMoreElems_differ h xs t t' he
    exact ⟨⟨hx, hxs⟩, ht⟩

theorem printMembers_differ (h : Spells q r f P) : ∀ (ms : List (σ × Json σ)) (t t' : List Char),
    printMembers q ms ++ t = printMembers r (mapMembers f ms) ++ t' → AllMembers P ms ∧ t = t'
  | [], _, _, he => ⟨trivial, List.append_cancel_left he⟩
  | (k, v) :: ms, t, t', he => by
    rw [printMembers, mapMembers, printMembers, List.append_assoc, List.append_assoc, List.cons_append,
      List.cons_append, List.append_assoc, List.append_assoc] at he
    obtain ⟨hk, he⟩ := h.differ k _ _ he
    obtain ⟨hv, he⟩ := print_differ h v _ _ (List.cons.inj he).2
    obtain ⟨hms, ht⟩ := printMoreMembers_differ h ms t t' he
    exact ⟨⟨⟨hk, hv⟩, hms⟩, ht⟩

theorem printMoreMembers_differ (h : Spells q r f P) : ∀ (ms : List (σ × Json σ)) (t t' : List Char),
    printMoreMembers q ms ++ t = printMoreMembers r (mapMembers f ms) ++ t' → AllMembers P ms ∧ t = t'
  | [], _, _, he => ⟨trivial, List.append_cancel_left he⟩
  | (k, v) :: ms, t, t', he => by
    rw [printMoreMembers, mapMembers, printMoreMembers, List.cons_append, List.cons_append,
      List.append_assoc, List.append_assoc, List.cons_append, List.cons_append, List.append_assoc,
      List.append_assoc] at he
    obtain ⟨hk, he⟩ := h.differ k _ _ (List.cons.inj he).2
    obtain ⟨hv, he⟩ := print_differ h v _ _ (List.cons.inj he).2
    obtain ⟨hms, ht⟩ := printMoreMembers_differ h ms t t' he
    exact ⟨⟨⟨hk, hv⟩, hms⟩, ht⟩
end

/-- Two programs print a value alike exactly when they spell its strings
alike. -/
theorem print_eq_iff (h : Spells q r f P) (v : Json σ) : v.print q = (v.map f).print r ↔ v.AllStr P := by
  refine ⟨fun he => ?_, print_same h v⟩
  have : v.print q ++ [] = (v.map f).print r ++ [] := by rw [he]
  exact (print_differ h v [] [] this).1

end

end Json
