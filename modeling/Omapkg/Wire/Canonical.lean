import Omapkg.Client.GoJson
import Omapkg.Server.CanonicalJson
/-!
# The two canonical encoders

What the client makes of the bytes of the server's `canonicalJson`. On values
whose member names are plain it reads the server's value in the server's order
(`canonicalDocument_canonicalJson`), and encodes it to the same bytes exactly
when every string is clean: no line or paragraph separator, which only the
client escapes, and no lone surrogate, which only the server can write.
-/

namespace Omapkg.Wire

open Json Utf Omapkg.Server Omapkg.Client

/-! ## Strings -/

def CleanPoint : CodePoint → Prop
  | .scalar c => c ≠ '\u2028' ∧ c ≠ '\u2029'
  | .lone _ => False

instance : DecidablePred CleanPoint
  | .scalar _ => inferInstanceAs (Decidable (_ ∧ _))
  | .lone _ => inferInstanceAs (Decidable False)

/-- A string both encoders write alike. -/
def Clean (s : JsString) : Prop := ∀ cp ∈ codePoints s, CleanPoint cp

instance (s : JsString) : Decidable (Clean s) := inferInstanceAs (Decidable (∀ cp ∈ codePoints s, CleanPoint cp))

theorem escape_same {cp : CodePoint} (h : CleanPoint cp) : jsEscape cp = goEscape cp.char := by
  cases cp with
  | scalar c =>
    obtain ⟨h1, h2⟩ := h
    simp only [jsEscape, CodePoint.char, goEscape, h1, h2, or_self, if_false]
  | lone u => exact h.elim

theorem escape_differ {cp : CodePoint} {t t' : List Char} (h : jsEscape cp ++ t = goEscape cp.char ++ t') :
    CleanPoint cp := by
  cases cp with
  | scalar c =>
    by_contra hc
    have hsep : c = '\u2028' ∨ c = '\u2029' := by
      simp only [CleanPoint, not_and_or, not_not] at hc
      exact hc
    have hraw : escapeChar c = [c] := by rcases hsep with rfl | rfl <;> decide
    have hne : c ≠ '\\' := by rcases hsep with rfl | rfl <;> decide
    simp only [jsEscape, CodePoint.char, goEscape, hsep, if_true, hraw, unitEscape, List.cons_append] at h
    exact hne (List.cons.inj h).1
  | lone u =>
    have hraw : goEscape '\uFFFD' = ['\uFFFD'] := by decide
    simp only [jsEscape, CodePoint.char, hraw, unitEscape, List.cons_append] at h
    exact absurd (List.cons.inj h).1 (by decide)

section
variable {esc : Char → List Char} {P : CodePoint → Prop}

theorem points_differ (hsame : ∀ cp, P cp → jsEscape cp = esc cp.char)
    (hdiffer : ∀ cp t t', jsEscape cp ++ t = esc cp.char ++ t' → P cp) : ∀ (cps : List CodePoint) (t t' : List Char),
    cps.flatMap jsEscape ++ '"' :: t = (cps.map CodePoint.char).flatMap esc ++ '"' :: t' →
    (∀ cp ∈ cps, P cp) ∧ t = t'
  | [], t, t', h => ⟨by simp, (List.cons.inj h).2⟩
  | cp :: cps, t, t', h => by
    rw [List.map_cons, List.flatMap_cons, List.flatMap_cons, List.append_assoc, List.append_assoc] at h
    have hcp := hdiffer cp _ _ h
    rw [hsame cp hcp] at h
    obtain ⟨hcps, ht⟩ := points_differ hsame hdiffer cps t t' (List.append_cancel_left h)
    exact ⟨List.forall_mem_cons.mpr ⟨hcp, hcps⟩, ht⟩

/-- An encoder that spells the code points with `P` as the server does, and
the others unlike it. -/
theorem spells_points (hsame : ∀ cp, P cp → jsEscape cp = esc cp.char)
    (hdiffer : ∀ cp t t', jsEscape cp ++ t = esc cp.char ++ t' → P cp) :
    Spells jsQuote (fun s => '"' :: (s.toList.flatMap esc ++ ['"'])) toText fun s => ∀ cp ∈ codePoints s, P cp where
  same s h := by
    have hflat : (codePoints s).flatMap jsEscape = ((codePoints s).map CodePoint.char).flatMap esc := by
      rw [List.flatMap_map]
      exact List.flatMap_congr fun cp hcp => hsame cp (h cp hcp)
    rw [jsQuote, toText, String.toList_ofList, hflat]
  differ s t t' h := by
    simp only [jsQuote, toText, String.toList_ofList, List.cons_append, List.append_assoc] at h
    exact points_differ hsame hdiffer (codePoints s) t t' (List.cons.inj h).2

end

/-- The two ways of quoting differ at the first character of a string that is
not clean. -/
theorem spells : Spells jsQuote goQuote toText Clean :=
  spells_points (fun _ h => escape_same h) fun _ _ _ h => escape_differ h

/-! ## Names in order -/

theorem map_toNat_lt : ∀ {l l' : List Char}, l.map Char.toNat < l'.map Char.toNat → l < l'
  | _, [], h => by simp at h
  | [], c :: l', _ => List.nil_lt_cons c l'
  | b :: l, c :: l', h => by
    rw [List.map_cons, List.map_cons, List.cons_lt_cons_iff] at h
    rw [List.cons_lt_cons_iff]
    rcases h with h | ⟨he, h⟩
    · exact .inl h
    · exact .inr ⟨Char.toNat_inj.mp he, map_toNat_lt h⟩

/-- Plain names are in the same order on both sides. -/
theorem toText_lt {a b : JsString} (ha : PlainKey a) (hb : PlainKey b) (hle : KeyLE a b) (hne : a ≠ b) :
    toText a < toText b := by
  have key : ∀ {k : JsString}, PlainKey k → (toText k).toList.map Char.toNat = k.map UInt16.toNat := by
    intro k hk
    rw [toText_ascii hk.2, List.map_map]
    exact List.map_congr_left fun u hu => toNat_ascii (hk.2 u hu)
  refine String.lt_iff_toList_lt.mpr (map_toNat_lt ?_)
  rw [key ha, key hb]
  refine lt_of_le_of_ne hle fun h => hne ?_
  exact List.map_injective_iff.mpr (fun u v h => UInt16.toNat_inj.mp h) h

/-! ## Values in order -/

mutual
/-- What the server writes of a plain value is in the client's order. -/
theorem ascending_canonicalValue : ∀ v : Json JsString, Plain v → Ascending ((canonicalValue v).map toText)
  | .null, _ => trivial
  | .bool _, _ => trivial
  | .num _, _ => trivial
  | .str _, _ => trivial
  | .arr xs, h => by
    rw [canonicalValue, Json.map, mapElems_eq, canonicalElems_eq, List.map_map]
    exact ascending_elems xs h
  | .obj ms, ⟨hk, hm⟩ => by
    rw [canonicalValue_obj hk, Json.map, mapMembers_eq]
    have hms : (canonicalMembers ms).map Prod.fst = ms.map Prod.fst := by
      rw [canonicalMembers_eq, List.map_map]; rfl
    have hmem : ∀ m ∈ sortKeys (canonicalMembers ms), PlainKey m.1 := fun m h => by
      have := List.mem_map_of_mem (f := Prod.fst) ((sortKeys_perm _).mem_iff.mp h)
      rw [hms] at this
      exact hk.2 m.1 this
    constructor
    · rw [List.pairwise_map]
      refine (sortKeys_pairwise (by rw [hms]; exact hk.1)).imp_of_mem fun ha hb h => ?_
      exact toText_lt (hmem _ ha) (hmem _ hb) h.1 h.2
    · have hperm := ((sortKeys_perm (canonicalMembers ms)).map
        (fun m => (toText m.1, m.2.map toText)))
      rw [ascendingMembers_iff]
      intro m hm'
      rw [hperm.mem_iff, canonicalMembers_eq, List.map_map] at hm'
      exact (ascendingMembers_iff _).mp (ascending_members ms hm) m hm'

theorem ascending_elems : ∀ xs : List (Json JsString), PlainElems xs →
    AscendingElems (xs.map (Json.map toText ∘ canonicalValue))
  | [], _ => trivial
  | x :: xs, h => ⟨ascending_canonicalValue x h.1, ascending_elems xs h.2⟩

theorem ascending_members : ∀ ms : List (JsString × Json JsString), PlainMembers ms →
    AscendingMembers (ms.map ((fun m => (toText m.1, m.2.map toText)) ∘ fun m => (m.1, canonicalValue m.2)))
  | [], _ => trivial
  | (_, v) :: ms, h => ⟨ascending_canonicalValue v h.1, ascending_members ms h.2⟩
end

/-! ## What the client reads -/

/-- The client's value of the server's `v`. -/
def received (v : Json JsString) : GoValue := (canonicalValue v).map toText

/-- The client's object of the server's object of members `ms`. -/
def receivedObject (ms : List (JsString × Json JsString)) : Object :=
  (sortKeys (canonicalMembers ms)).map fun m => (toText m.1, m.2.map toText)

theorem received_obj {ms : List (JsString × Json JsString)} (h : PlainKeys (ms.map Prod.fst)) :
    received (.obj ms) = .obj (receivedObject ms) := by
  rw [received, canonicalValue_obj h, Json.map, mapMembers_eq, receivedObject]

@[simp] theorem received_str (s : JsString) : received (.str s) = .str (toText s) := rfl

@[simp] theorem received_num (n : Numeral) : received (.num n) = .num n := rfl

@[simp] theorem received_bool (b : Bool) : received (.bool b) = .bool b := rfl

@[simp] theorem received_null : received .null = .null := rfl

@[simp] theorem received_arr (xs : List (Json JsString)) : received (.arr xs) = .arr (xs.map received) := by
  rw [received, canonicalValue, Json.map, mapElems_eq, canonicalElems_eq, List.map_map]
  rfl

mutual
/-- Sorting members changes no string. -/
theorem allStr_canonicalValue {P : JsString → Prop} : ∀ v : Json JsString, Plain v →
    ((canonicalValue v).AllStr P ↔ v.AllStr P)
  | .null, _ => Iff.rfl
  | .bool _, _ => Iff.rfl
  | .num _, _ => Iff.rfl
  | .str _, _ => Iff.rfl
  | .arr xs, h => by
    simp only [canonicalValue, AllStr]
    exact allElems_canonicalElems xs h
  | .obj ms, h => by
    rw [canonicalValue_obj h.1, AllStr, AllStr, ← allMembers_canonicalMembers ms h.2, allMembers_iff,
      allMembers_iff]
    exact forall_congr' fun m => imp_congr_left (sortKeys_perm _).mem_iff

theorem allElems_canonicalElems {P : JsString → Prop} : ∀ xs : List (Json JsString), PlainElems xs →
    (AllElems P (canonicalElems xs) ↔ AllElems P xs)
  | [], _ => Iff.rfl
  | x :: xs, h => by
    rw [canonicalElems, AllElems, AllElems, allStr_canonicalValue x h.1, allElems_canonicalElems xs h.2]

theorem allMembers_canonicalMembers {P : JsString → Prop} : ∀ ms : List (JsString × Json JsString),
    PlainMembers ms → (AllMembers P (canonicalMembers ms) ↔ AllMembers P ms)
  | [], _ => Iff.rfl
  | (k, v) :: ms, h => by
    rw [canonicalMembers, AllMembers, AllMembers, allStr_canonicalValue v h.1,
      allMembers_canonicalMembers ms h.2]
end

/-- The client decodes the server's bytes to the server's object, in order. -/
theorem canonicalDocument_canonicalJson {ms : List (JsString × Json JsString)} (h : Plain (.obj ms))
    (hd : depth (.obj ms) ≤ maxNestingDepth) :
    canonicalDocument (encode (canonicalJson (.obj ms))) =
      .ok (canonicalMarshal (received (.obj ms)), receivedObject ms) := by
  have hparse := parse_print reads_jsQuote (canonicalValue (.obj ms))
    (le_trans (depth_canonicalValue _ h) hd) stops_nil
  have hdec : String.ofList ∘ (fun s => (toText s).toList) = toText := by
    funext s; exact String.ofList_toList
  rw [List.append_nil, hdec] at hparse
  have hasc : goValue (received (.obj ms)) = received (.obj ms) :=
    goValue_ascending _ (ascending_canonicalValue _ h)
  rw [canonicalDocument, decode_encode, canonicalJson, hparse]
  simp only
  rw [show (canonicalValue (.obj ms)).map toText = received (.obj ms) from rfl, hasc, received_obj h.1]
  rfl

/-- The client's canonical bytes of a plain object are the server's exactly
when every string in it is clean. -/
theorem canonical_bytes_iff {v : Json JsString} (h : Plain v) :
    canonicalMarshal (received v) = encode (canonicalJson v) ↔ v.AllStr Clean := by
  rw [← allStr_canonicalValue v h, ← print_eq_iff spells]
  exact ⟨fun he => (encode_injective he).symm, fun he => congrArg encode he.symm⟩

/-! ## Fields -/

theorem lookup_perm {α β : Type} [BEq α] [LawfulBEq α] {l l' : List (α × β)} (h : l.Perm l')
    (hn : (l.map Prod.fst).Nodup) (k : α) : l.lookup k = l'.lookup k := by
  induction h with
  | nil => rfl
  | cons e _ ih =>
    obtain ⟨k', v⟩ := e
    rw [List.lookup_cons, List.lookup_cons, ih (List.nodup_cons.mp hn).2]
  | swap e e' l =>
    obtain ⟨k₁, v₁⟩ := e
    obtain ⟨k₂, v₂⟩ := e'
    have hne : k₂ ≠ k₁ := by
      simp only [List.map_cons, List.nodup_cons, List.mem_cons, not_or] at hn
      exact hn.1.1
    simp only [List.lookup_cons]
    by_cases h1 : k = k₁
    · have h2 : ¬k = k₂ := fun h => hne (h.symm.trans h1)
      simp [beq_iff_eq.mpr h1, beq_eq_false_iff_ne.mpr h2]
    · simp [beq_eq_false_iff_ne.mpr h1]
  | trans h1 _ ih1 ih2 =>
    exact (ih1 hn).trans (ih2 ((h1.map Prod.fst).nodup_iff.mp hn))

theorem lookup_map_snd {α β γ : Type} [BEq α] (g : β → γ) (l : List (α × β)) (k : α) :
    (l.map fun m => (m.1, g m.2)).lookup k = (l.lookup k).map g := by
  induction l with
  | nil => rfl
  | cons m l ih =>
    obtain ⟨k', v⟩ := m
    simp only [List.map_cons, List.lookup_cons, ih]
    cases k == k' <;> rfl

theorem lookup_toText {l : List (JsString × Json JsString)} (h : ∀ m ∈ l, PlainKey m.1) (key : String) :
    (l.map fun m => (toText m.1, m.2.map toText)).lookup key =
      (l.lookup (units key)).map (Json.map toText) := by
  induction l with
  | nil => rfl
  | cons m l ih =>
    obtain ⟨k, v⟩ := m
    have hkey : (key == toText k) = (units key == k) := by
      rw [Bool.eq_iff_iff, beq_iff_eq, beq_iff_eq, eq_comm, toText_eq_iff (h (k, v) List.mem_cons_self).2,
        eq_comm]
    simp only [List.map_cons, List.lookup_cons, ih fun m hm => h m (List.mem_cons_of_mem _ hm), hkey]
    cases units key == k <;> rfl

/-- A field of the client's object is the client's value of the server's. -/
theorem lookup_receivedObject {ms : List (JsString × Json JsString)} (h : PlainKeys (ms.map Prod.fst))
    (key : String) : (receivedObject ms).lookup key = (ms.lookup (units key)).map received := by
  have hkeys : (canonicalMembers ms).map Prod.fst = ms.map Prod.fst := by
    rw [canonicalMembers_eq, List.map_map]; rfl
  have hplain : ∀ m ∈ sortKeys (canonicalMembers ms), PlainKey m.1 := fun m hm => by
    have := List.mem_map_of_mem (f := Prod.fst) ((sortKeys_perm _).mem_iff.mp hm)
    rw [hkeys] at this
    exact h.2 m.1 this
  have hnodup : ((sortKeys (canonicalMembers ms)).map Prod.fst).Nodup :=
    ((sortKeys_perm _).map Prod.fst).nodup_iff.mpr (by rw [hkeys]; exact h.1)
  rw [receivedObject, lookup_toText hplain, lookup_perm (sortKeys_perm _) hnodup, canonicalMembers_eq,
    lookup_map_snd, Option.map_map]
  rfl

end Omapkg.Wire
