import Mathlib.Data.List.Lex
import Mathlib.Data.List.Sort
import Omapkg.Lib.JsonParse
import Omapkg.Lib.Utf
/-!
# Canonical JSON of the server

`canonicalJson` of `src/src/lib/canonical-json.ts`: members sorted by name,
then `JSON.stringify`. Strings are JavaScript's, UTF-16 with lone surrogates,
and an object's members are listed in the order `Object.keys` gives.
-/

namespace Omapkg.Server

open Utf Json

abbrev JsString := CodeUnits

/-! ## Objects -/

/-- The default order of `Array.prototype.sort`, by UTF-16 units. -/
def KeyLE (a b : JsString) : Prop := a.map UInt16.toNat ≤ b.map UInt16.toNat

instance (a b : JsString) : Decidable (KeyLE a b) := inferInstanceAs (Decidable (_ ≤ _))

/-- The array index a name spells: those names come first in every object. -/
def arrayIndex (k : JsString) : Option Nat :=
  let n := Nat.ofDigitChars 10 (k.map fun u => Char.ofNat u.toNat) 0
  if k = units (Nat.repr n) ∧ n < 4294967295 then some n else none

/-- `Object.fromEntries`: array indices in ascending order, then the other
names as they come. -/
def fromEntries (ms : List (JsString × Json JsString)) : List (JsString × Json JsString) :=
  (ms.filter fun m => (arrayIndex m.1).isSome).insertionSort
    (fun a b => (arrayIndex a.1).getD 0 ≤ (arrayIndex b.1).getD 0) ++
    ms.filter fun m => (arrayIndex m.1).isNone

def sortKeys (ms : List (JsString × Json JsString)) : List (JsString × Json JsString) :=
  ms.insertionSort fun a b => KeyLE a.1 b.1

mutual
/-- Stable object ordering; arrays retain their semantic order. -/
def canonicalValue : Json JsString → Json JsString
  | .arr xs => .arr (canonicalElems xs)
  | .obj ms => .obj (fromEntries (sortKeys (canonicalMembers ms)))
  | .null => .null
  | .bool b => .bool b
  | .num n => .num n
  | .str s => .str s
def canonicalElems : List (Json JsString) → List (Json JsString)
  | [] => []
  | x :: xs => canonicalValue x :: canonicalElems xs
def canonicalMembers : List (JsString × Json JsString) → List (JsString × Json JsString)
  | [] => []
  | (k, v) :: ms => (k, canonicalValue v) :: canonicalMembers ms
end

/-! ## Plain names -/

/-- A name of ASCII characters that is no array index. -/
def PlainKey (k : JsString) : Prop := arrayIndex k = none ∧ IsAscii k

instance : DecidablePred PlainKey := fun k => inferInstanceAs (Decidable (arrayIndex k = none ∧ _))

/-- Plain names, none twice. -/
def PlainKeys (ks : List JsString) : Prop := ks.Nodup ∧ ∀ k ∈ ks, PlainKey k

instance : DecidablePred PlainKeys := fun ks => inferInstanceAs (Decidable (ks.Nodup ∧ _))

mutual
/-- Every object of the value has plain names. -/
def Plain : Json JsString → Prop
  | .arr xs => PlainElems xs
  | .obj ms => PlainKeys (ms.map Prod.fst) ∧ PlainMembers ms
  | _ => True
def PlainElems : List (Json JsString) → Prop
  | [] => True
  | x :: xs => Plain x ∧ PlainElems xs
def PlainMembers : List (JsString × Json JsString) → Prop
  | [] => True
  | (_, v) :: ms => Plain v ∧ PlainMembers ms
end

theorem plainElems_iff (xs : List (Json JsString)) : PlainElems xs ↔ ∀ x ∈ xs, Plain x := by
  induction xs with
  | nil => simp [PlainElems]
  | cons x xs ih => simp [PlainElems, ih]

theorem plainMembers_iff (ms : List (JsString × Json JsString)) : PlainMembers ms ↔ ∀ m ∈ ms, Plain m.2 := by
  induction ms with
  | nil => simp [PlainMembers]
  | cons m ms ih => obtain ⟨k, v⟩ := m; simp [PlainMembers, ih]

theorem canonicalElems_eq (xs : List (Json JsString)) : canonicalElems xs = xs.map canonicalValue := by
  induction xs with
  | nil => rfl
  | cons x xs ih => rw [canonicalElems, ih, List.map_cons]

theorem canonicalMembers_eq (ms : List (JsString × Json JsString)) :
    canonicalMembers ms = ms.map fun m => (m.1, canonicalValue m.2) := by
  induction ms with
  | nil => rfl
  | cons m ms ih => obtain ⟨k, v⟩ := m; rw [canonicalMembers, ih, List.map_cons]

theorem sortKeys_perm (ms : List (JsString × Json JsString)) : (sortKeys ms).Perm ms :=
  List.perm_insertionSort _ ms

/-- Plain names come out in the order of their units, each once. -/
theorem sortKeys_pairwise {ms : List (JsString × Json JsString)} (h : (ms.map Prod.fst).Nodup) :
    (sortKeys ms).Pairwise fun a b => KeyLE a.1 b.1 ∧ a.1 ≠ b.1 := by
  have htotal : Std.Total fun a b : JsString × Json JsString => KeyLE a.1 b.1 :=
    ⟨fun a b => le_total (a.1.map UInt16.toNat) (b.1.map UInt16.toNat)⟩
  have htrans : IsTrans (JsString × Json JsString) fun a b => KeyLE a.1 b.1 :=
    ⟨fun a b c => le_trans (a := a.1.map UInt16.toNat) (b := b.1.map UInt16.toNat)⟩
  have hs : (sortKeys ms).Pairwise fun a b => KeyLE a.1 b.1 := List.pairwise_insertionSort _ ms
  have hn : (sortKeys ms).Pairwise fun a b => a.1 ≠ b.1 :=
    List.pairwise_map.mp (((sortKeys_perm ms).map Prod.fst).nodup_iff.mpr h)
  exact hs.imp₂ (fun _ _ h1 h2 => ⟨h1, h2⟩) hn

theorem fromEntries_plain {ms : List (JsString × Json JsString)} (h : ∀ m ∈ ms, arrayIndex m.1 = none) :
    fromEntries ms = ms := by
  have h1 : (ms.filter fun m => (arrayIndex m.1).isSome) = [] :=
    List.filter_eq_nil_iff.mpr fun m hm => by simp [h m hm]
  have h2 : (ms.filter fun m => (arrayIndex m.1).isNone) = ms :=
    List.filter_eq_self.mpr fun m hm => by simp [h m hm]
  rw [fromEntries, h1, h2]
  rfl

theorem canonicalValue_obj {ms : List (JsString × Json JsString)} (h : PlainKeys (ms.map Prod.fst)) :
    canonicalValue (.obj ms) = .obj (sortKeys (canonicalMembers ms)) := by
  rw [canonicalValue, fromEntries_plain]
  intro m hm
  rw [(sortKeys_perm _).mem_iff, canonicalMembers_eq, List.mem_map] at hm
  obtain ⟨e, he, rfl⟩ := hm
  exact (h.2 e.1 (List.mem_map_of_mem he)).1

mutual
/-- Sorting members nests nothing deeper. -/
theorem depth_canonicalValue : ∀ v : Json JsString, Plain v → (canonicalValue v).depth ≤ v.depth
  | .null, _ => Nat.le_refl _
  | .bool _, _ => Nat.le_refl _
  | .num _, _ => Nat.le_refl _
  | .str _, _ => Nat.le_refl _
  | .arr xs, h => by
    simp only [canonicalValue, depth]
    exact Nat.succ_le_succ (depth_canonicalElems xs h)
  | .obj ms, h => by
    rw [canonicalValue_obj h.1, depth, depth]
    refine Nat.succ_le_succ ((depthMembers_le_iff _ _).mpr fun m hm => ?_)
    exact (depthMembers_le_iff _ _).mp (depth_canonicalMembers ms h.2) m ((sortKeys_perm _).mem_iff.mp hm)

theorem depth_canonicalElems : ∀ xs : List (Json JsString), PlainElems xs →
    depthElems (canonicalElems xs) ≤ depthElems xs
  | [], _ => Nat.le_refl _
  | x :: xs, h => by
    have h1 := depth_canonicalValue x h.1
    have h2 := depth_canonicalElems xs h.2
    simp only [canonicalElems, depthElems]
    omega

theorem depth_canonicalMembers : ∀ ms : List (JsString × Json JsString), PlainMembers ms →
    depthMembers (canonicalMembers ms) ≤ depthMembers ms
  | [], _ => Nat.le_refl _
  | (_, v) :: ms, h => by
    have h1 := depth_canonicalValue v h.1
    have h2 := depth_canonicalMembers ms h.2
    simp only [canonicalMembers, depthMembers]
    omega
end

/-! ## JSON.stringify -/

/-- A code point in `JSON.stringify`, which escapes a lone surrogate. -/
def jsEscape : CodePoint → List Char
  | .scalar c => escapeChar c
  | .lone u => unitEscape u.toNat

def jsQuote (s : JsString) : List Char := '"' :: ((codePoints s).flatMap jsEscape ++ ['"'])

def canonicalJson (v : Json JsString) : List Char := (canonicalValue v).print jsQuote

/-! ## What a reader makes of it -/

def jsPiece : CodePoint → Piece
  | .scalar c => escapePiece c
  | .lone u => .unit u.toNat

theorem lexPieces_jsEscape (cp : CodePoint) (t : List Char) :
    lexPieces (jsEscape cp ++ t) = (lexPieces t).map fun x => (jsPiece cp :: x.1, x.2) := by
  cases cp with
  | scalar c => exact lexPieces_escapeChar c t
  | lone u => exact lexPieces_unitEscape u.toNat_lt t

theorem lexPieces_jsQuote (cps : List CodePoint) (t : List Char) :
    lexPieces (cps.flatMap jsEscape ++ '"' :: t) = some (cps.map jsPiece, t) := by
  induction cps with
  | nil => simp [lexPieces.eq_def]
  | cons cp cps ih =>
    rw [List.flatMap_cons, List.append_assoc, lexPieces_jsEscape, ih]
    rfl

theorem highUnit_toNat (u : UInt16) : highUnit u.toNat = isHigh u := rfl

theorem lowUnit_toNat (u : UInt16) : lowUnit u.toNat = isLow u := rfl

/-- A control character is no surrogate. -/
theorem control_unit {c : Char} (h : c < ' ') : highUnit c.toNat = false ∧ lowUnit c.toNat = false := by
  have hc : c.toNat < 32 := h
  simp only [highUnit, lowUnit, Bool.and_eq_false_iff, decide_eq_false_iff_not]
  omega

theorem joinPieces_escapePiece (c : Char) (ps : List Piece) :
    joinPieces none (escapePiece c :: ps) = c :: joinPieces none ps := by
  unfold escapePiece
  split
  · rename_i h
    obtain ⟨hh, hl⟩ := control_unit h.1
    simp [joinPieces, hh, hl, Char.ofNat_toNat]
  · rfl

theorem joinPieces_jsPiece : ∀ cps : List CodePoint, WellPaired cps →
    joinPieces none (cps.map jsPiece) = cps.map CodePoint.char
  | [], _ => rfl
  | .scalar c :: cps, h => by
    rw [List.map_cons, jsPiece, joinPieces_escapePiece, joinPieces_jsPiece cps h]
    rfl
  | .lone u :: cps, ⟨hs, hp, h⟩ => by
    have ih := joinPieces_jsPiece cps h
    cases hu : isHigh u with
    | false =>
      have hl : isLow u = true := by simpa [hu] using hs
      simp only [List.map_cons, jsPiece, joinPieces, highUnit_toNat, lowUnit_toNat, hu, hl, ih, if_true,
        Bool.false_eq_true, if_false]
      rfl
    | true =>
      have hnext : ∀ n, (cps.map jsPiece).head? = some (.unit n) → lowUnit n = false := by
        rintro n hn
        rcases cps with _ | ⟨c | v, cps⟩
        · simp at hn
        · simp only [List.map_cons, List.head?_cons, Option.some.injEq, jsPiece, escapePiece] at hn
          split at hn
          · rename_i hc
            rw [← Piece.unit.inj hn]
            exact (control_unit hc.1).2
          · simp at hn
        · simp only [List.map_cons, List.head?_cons, Option.some.injEq, jsPiece] at hn
          rw [← Piece.unit.inj hn]
          exact hp hu v rfl
      simp only [List.map_cons, jsPiece, joinPieces, highUnit_toNat, hu, if_true]
      rw [joinPieces_some hnext, ih]
      rfl

/-- A quoted string reads back as its text, lone surrogates replaced. -/
theorem reads_jsQuote : Reads jsQuote fun s => (toText s).toList := by
  intro s
  refine ⟨(codePoints s).flatMap jsEscape ++ ['"'], rfl, fun t => ?_⟩
  rw [List.append_assoc, List.singleton_append, lexString, lexPieces_jsQuote]
  simp only [Option.map_some, joinPieces_jsPiece _ (wellPaired_codePoints s), toText, String.toList_ofList]

end Omapkg.Server
