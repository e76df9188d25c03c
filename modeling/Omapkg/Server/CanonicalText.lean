import Omapkg.Lib.JsonRead
import Omapkg.Server.CanonicalJson
/-!
# What canonical JSON keeps

Two values have one canonical text just if they are the same value, objects
being maps of their names, and reading the text and writing it again changes
nothing. A number is represented by the text that `JSON.stringify` gives it.
-/

namespace Omapkg.Server

open Utf Json

/-! ## Strings -/

def pointUnits : CodePoint → CodeUnits
  | .scalar c => encodeUnit c
  | .lone u => [u]

def pieceUnits : Piece → CodeUnits
  | .raw c => encodeUnit c
  | .unit n => [UInt16.ofNat n]

/-- A string literal after its opening quote, every escape a unit of its own. -/
def lexUnits (cs : List Char) : Option (JsString × List Char) := (lexPieces cs).map fun x => (x.1.flatMap pieceUnits, x.2)

theorem encodeUnit_single {u : UInt16} (hh : isHigh u = false) (hl : isLow u = false) : encodeUnit (Char.ofNat u.toNat) = [u] := by
  have hu := u.toNat_lt
  have hvalid : Nat.isValidChar u.toNat := by
    simp only [isHigh, isLow, Bool.and_eq_false_iff, decide_eq_false_iff_not] at hh hl
    simp only [Nat.isValidChar]
    omega
  have hchar : (Char.ofNat u.toNat).toNat = u.toNat := by
    rw [Char.ofNat, dif_pos hvalid]
    rfl
  rw [encodeUnit, if_pos (by omega), hchar, UInt16.ofNat_toNat]

theorem encodeUnit_pair {hi lo : UInt16} (hh : isHigh hi = true) (hl : isLow lo = true) :
    encodeUnit (Utf.pairChar hi lo) = [hi, lo] := by
  simp only [isHigh, isLow, Bool.and_eq_true, decide_eq_true_eq] at hh hl
  have hvalid : Nat.isValidChar (0x10000 + (hi.toNat - 0xD800) * 0x400 + (lo.toNat - 0xDC00)) := by
    simp only [Nat.isValidChar]
    omega
  have hchar : (Utf.pairChar hi lo).toNat = 0x10000 + (hi.toNat - 0xD800) * 0x400 + (lo.toNat - 0xDC00) := by
    rw [Utf.pairChar, Char.ofNat, dif_pos hvalid]
    rfl
  have hhi : 0xD800 + ((hi.toNat - 0xD800) * 0x400 + (lo.toNat - 0xDC00)) / 0x400 = hi.toNat := by omega
  have hlo : 0xDC00 + ((hi.toNat - 0xD800) * 0x400 + (lo.toNat - 0xDC00)) % 0x400 = lo.toNat := by omega
  rw [encodeUnit, if_neg (by omega), hchar, Nat.add_assoc, Nat.add_sub_cancel_left, hhi, hlo, UInt16.ofNat_toNat,
    UInt16.ofNat_toNat]

theorem units_codePointsFrom (us : CodeUnits) : (codePointsFrom none us).flatMap pointUnits = us ∧
    ∀ h, isHigh h = true → (codePointsFrom (some h) us).flatMap pointUnits = h :: us := by
  induction us with
  | nil => exact ⟨rfl, fun h _ => rfl⟩
  | cons u us ih =>
    obtain ⟨ihn, ihs⟩ := ih
    constructor
    · rw [codePointsFrom]
      split_ifs with hu hl
      · exact ihs u hu
      · rw [List.flatMap_cons, ihn]
        rfl
      · rw [List.flatMap_cons, ihn, pointUnits, encodeUnit_single (by simpa using hu) (by simpa using hl)]
        rfl
    · intro h hh
      rw [codePointsFrom]
      split_ifs with hl hu
      · rw [List.flatMap_cons, ihn, pointUnits, encodeUnit_pair hh hl]
        rfl
      · rw [List.flatMap_cons, ihs u hu]
        rfl
      · rw [List.flatMap_cons, List.flatMap_cons, ihn, pointUnits, pointUnits,
          encodeUnit_single (by simpa using hu) (by simpa using hl)]
        rfl

/-- The code points of a string spell it. -/
theorem units_codePoints (us : CodeUnits) : (codePoints us).flatMap pointUnits = us := (units_codePointsFrom us).1

theorem pieceUnits_jsPiece (cp : CodePoint) : pieceUnits (jsPiece cp) = pointUnits cp := by
  cases cp with
  | lone u => exact congrArg (fun n => [n]) UInt16.ofNat_toNat
  | scalar c =>
    change pieceUnits (escapePiece c) = _
    unfold escapePiece
    split
    · next hcontrol =>
      have hc : c.toNat < 32 := hcontrol.1
      rw [pieceUnits, pointUnits, encodeUnit, if_pos (by omega)]
    · rfl

/-- What `JSON.stringify` quotes, `JSON.parse` reads back, lone surrogates too. -/
theorem readsBack_jsQuote : ReadsBack jsQuote lexUnits := by
  intro s
  refine ⟨(codePoints s).flatMap jsEscape ++ ['"'], rfl, fun t => ?_⟩
  rw [List.append_assoc, List.singleton_append, lexUnits, lexPieces_jsQuote, Option.map_some, List.flatMap_map]
  have hunits : (codePoints s).flatMap (fun cp => pieceUnits (jsPiece cp)) = s := by
    rw [List.flatMap_congr fun cp _ => pieceUnits_jsPiece cp]
    exact units_codePoints s
  rw [hunits]

/-! ## JSON.parse -/

/-- A member that is set: in its place if the name is there, else at the end. -/
def setMember (ms : List (JsString × Json JsString)) (m : JsString × Json JsString) : List (JsString × Json JsString) :=
  if ms.any (·.1 = m.1) then ms.map fun old => if old.1 = m.1 then m else old else ms ++ [m]

section
variable (jsNumber : Numeral → Numeral)

mutual
/-- The value that a text denotes: numbers as they are written again, and of
members with one name the last. -/
def jsValue : Json JsString → Json JsString
  | .arr xs => .arr (jsElems xs)
  | .obj ms => .obj (fromEntries ((jsMembers ms).foldl setMember []))
  | .num n => .num (jsNumber n)
  | .null => .null
  | .bool b => .bool b
  | .str s => .str s
def jsElems : List (Json JsString) → List (Json JsString)
  | [] => []
  | x :: xs => jsValue x :: jsElems xs
def jsMembers : List (JsString × Json JsString) → List (JsString × Json JsString)
  | [] => []
  | (k, v) :: ms => (k, jsValue v) :: jsMembers ms
end

def jsonParse (text : List Char) : Option (Json JsString) := (Json.read lexUnits text).map (jsValue jsNumber)

/-! ## Values -/

mutual
/-- A value of the language: the names of an object are different, and a number
is as it is written. -/
def IsValue : Json JsString → Prop
  | .arr xs => AreValues xs
  | .obj ms => (ms.map Prod.fst).Nodup ∧ HaveValues ms
  | .num n => jsNumber n = n
  | _ => True
def AreValues : List (Json JsString) → Prop
  | [] => True
  | x :: xs => IsValue x ∧ AreValues xs
def HaveValues : List (JsString × Json JsString) → Prop
  | [] => True
  | (_, v) :: ms => IsValue v ∧ HaveValues ms
end

end

mutual
/-- The same value: arrays by their elements in order, objects by their names in
any order and by what each name has. -/
def Same : Json JsString → Json JsString → Prop
  | .arr xs, .arr ys => SameElems xs ys
  | .obj ms, .obj ns => (ms.map Prod.fst).Perm (ns.map Prod.fst) ∧ SameMembers ms ns
  | .num n, .num m => n = m
  | .null, .null => True
  | .bool b, .bool c => b = c
  | .str s, .str t => s = t
  | _, _ => False
def SameElems : List (Json JsString) → List (Json JsString) → Prop
  | [], [] => True
  | x :: xs, y :: ys => Same x y ∧ SameElems xs ys
  | _, _ => False
/-- Every member is one of the others. -/
def SameMembers : List (JsString × Json JsString) → List (JsString × Json JsString) → Prop
  | [], _ => True
  | (k, v) :: ms, ns => (∃ w, (k, w) ∈ ns ∧ Same v w) ∧ SameMembers ms ns
end

section
variable {jsNumber : Numeral → Numeral}

theorem haveValues_iff (ms : List (JsString × Json JsString)) : HaveValues jsNumber ms ↔ ∀ m ∈ ms, IsValue jsNumber m.2 := by
  induction ms with
  | nil => simp [HaveValues]
  | cons m ms ih =>
    obtain ⟨k, v⟩ := m
    simp [HaveValues, ih]

theorem sameMembers_iff (ms ns : List (JsString × Json JsString)) :
    SameMembers ms ns ↔ ∀ m ∈ ms, ∃ w, (m.1, w) ∈ ns ∧ Same m.2 w := by
  induction ms with
  | nil => simp [SameMembers]
  | cons m ms ih =>
    obtain ⟨k, v⟩ := m
    simp [SameMembers, ih]

theorem jsMembers_eq (ms : List (JsString × Json JsString)) :
    jsMembers jsNumber ms = ms.map fun m => (m.1, jsValue jsNumber m.2) := by
  induction ms with
  | nil => rfl
  | cons m ms ih =>
    obtain ⟨k, v⟩ := m
    rw [jsMembers, ih, List.map_cons]

/-! ## Order of members -/

theorem fromEntries_perm (ms : List (JsString × Json JsString)) : (fromEntries ms).Perm ms := by
  have hsort := List.perm_insertionSort (fun a b : JsString × Json JsString => (arrayIndex a.1).getD 0 ≤ (arrayIndex b.1).getD 0)
    (ms.filter fun m => (arrayIndex m.1).isSome)
  have hnone : (ms.filter fun m => (arrayIndex m.1).isNone) = ms.filter fun m => !(arrayIndex m.1).isSome :=
    List.filter_congr fun m _ => by simp
  rw [fromEntries, hnone]
  exact (hsort.append_right _).trans (List.filter_append_perm _ ms)

theorem canonicalOrder_perm (ms : List (JsString × Json JsString)) : (fromEntries (sortKeys ms)).Perm ms :=
  (fromEntries_perm _).trans (sortKeys_perm ms)

theorem map_toNat_injective {a b : JsString} (h : a.map UInt16.toNat = b.map UInt16.toNat) : a = b :=
  List.map_injective_iff.mpr (fun _ _ => UInt16.toNat_inj.mp) h

/-- Members with different names sort in one way. -/
theorem sortKeys_eq {ms ns : List (JsString × Json JsString)} (h : ms.Perm ns) (hnodup : (ms.map Prod.fst).Nodup) :
    sortKeys ms = sortKeys ns := by
  have hperm : (sortKeys ms).Perm (sortKeys ns) := (sortKeys_perm ms).trans (h.trans (sortKeys_perm ns).symm)
  have hnodup' : (ns.map Prod.fst).Nodup := (h.map Prod.fst).nodup_iff.mp hnodup
  refine hperm.eq_of_pairwise ?_ ((sortKeys_pairwise hnodup).imp fun h => h.1) ((sortKeys_pairwise hnodup').imp fun h => h.1)
  intro a b ha hb hab hba
  have hname : a.1 = b.1 := map_toNat_injective (le_antisymm hab hba)
  exact List.inj_on_of_nodup_map hnodup ((sortKeys_perm ms).mem_iff.mp ha) ((h.trans (sortKeys_perm ns).symm).mem_iff.mpr hb) hname

theorem setMember_foldl {ms done : List (JsString × Json JsString)} (h : ((done ++ ms).map Prod.fst).Nodup) :
    ms.foldl setMember done = done ++ ms := by
  induction ms generalizing done with
  | nil => simp
  | cons m ms ih =>
    have hnew : done.any (fun old => old.1 = m.1) = false := by
      rw [List.any_eq_false]
      intro old hold
      simp only [List.map_append, List.map_cons, List.nodup_append] at h
      simpa using h.2.2 old.1 (List.mem_map_of_mem hold) m.1 List.mem_cons_self
    rw [List.foldl_cons, setMember, if_neg (by simp [hnew]), ih (by simpa using h), List.append_assoc, List.singleton_append]

/-- An object that lists its members as it must lists them so again. -/
theorem fromEntries_idem (ms : List (JsString × Json JsString)) : fromEntries (fromEntries ms) = fromEntries ms := by
  have hsorted : ((ms.filter fun m => (arrayIndex m.1).isSome).insertionSort
      (fun a b => (arrayIndex a.1).getD 0 ≤ (arrayIndex b.1).getD 0)).Pairwise
        fun a b => (arrayIndex a.1).getD 0 ≤ (arrayIndex b.1).getD 0 := by
    have htotal : Std.Total fun a b : JsString × Json JsString => (arrayIndex a.1).getD 0 ≤ (arrayIndex b.1).getD 0 :=
      ⟨fun a b => Nat.le_total _ _⟩
    have htrans : IsTrans (JsString × Json JsString) fun a b => (arrayIndex a.1).getD 0 ≤ (arrayIndex b.1).getD 0 :=
      ⟨fun _ _ _ => Nat.le_trans⟩
    exact List.pairwise_insertionSort _ _
  have hindex : ∀ m ∈ (ms.filter fun m => (arrayIndex m.1).isSome).insertionSort
      (fun a b => (arrayIndex a.1).getD 0 ≤ (arrayIndex b.1).getD 0), (arrayIndex m.1).isSome = true := by
    intro m hm
    rw [(List.perm_insertionSort _ _).mem_iff] at hm
    exact (List.mem_filter.mp hm).2
  have hrest : ∀ m ∈ ms.filter fun m => (arrayIndex m.1).isNone, (arrayIndex m.1).isNone = true :=
    fun m hm => (List.mem_filter.mp hm).2
  have hrestNone : (ms.filter fun m => (arrayIndex m.1).isNone).filter (fun m => (arrayIndex m.1).isSome) = [] :=
    List.filter_eq_nil_iff.mpr fun m hm => by simpa using hrest m hm
  have hindexNone : ((ms.filter fun m => (arrayIndex m.1).isSome).insertionSort fun a b =>
      (arrayIndex a.1).getD 0 ≤ (arrayIndex b.1).getD 0).filter (fun m => (arrayIndex m.1).isNone) = [] :=
    List.filter_eq_nil_iff.mpr fun m hm => by simpa using Option.isSome_iff_ne_none.mp (hindex m hm)
  have hfirst : (fromEntries ms).filter (fun m => (arrayIndex m.1).isSome) =
      (ms.filter fun m => (arrayIndex m.1).isSome).insertionSort
        fun a b => (arrayIndex a.1).getD 0 ≤ (arrayIndex b.1).getD 0 := by
    rw [fromEntries, List.filter_append, List.filter_eq_self.mpr hindex, hrestNone, List.append_nil]
  have hsecond : (fromEntries ms).filter (fun m => (arrayIndex m.1).isNone) = ms.filter fun m => (arrayIndex m.1).isNone := by
    rw [fromEntries, List.filter_append, List.filter_eq_self.mpr hrest, hindexNone, List.nil_append]
  rw [fromEntries, hfirst, hsecond, hsorted.insertionSort_eq]
  rfl

/-! ## One value, one text -/

/-- The names of the canonical members are those of the members. -/
theorem canonicalMembers_names (ms : List (JsString × Json JsString)) :
    (canonicalMembers ms).map Prod.fst = ms.map Prod.fst := by
  rw [canonicalMembers_eq, List.map_map]
  rfl

/-- Objects with one canonical value for each name have one list of canonical members. -/
theorem canonicalObject_eq {ms ns : List (JsString × Json JsString)} (hnames : (ms.map Prod.fst).Perm (ns.map Prod.fst))
    (hnodup : (ms.map Prod.fst).Nodup)
    (hvalues : ∀ m ∈ ms, ∃ w, (m.1, w) ∈ ns ∧ canonicalValue m.2 = canonicalValue w) :
    canonicalValue (.obj ms) = canonicalValue (.obj ns) := by
  have hmembers : ((canonicalMembers ms).map Prod.fst).Nodup := (canonicalMembers_names ms).symm ▸ hnodup
  have hlength : ms.length = ns.length := by simpa using hnames.length_eq
  have hsubset : canonicalMembers ms ⊆ canonicalMembers ns := by
    intro m hm
    rw [canonicalMembers_eq] at hm ⊢
    obtain ⟨m, hmem, rfl⟩ := List.mem_map.mp hm
    obtain ⟨w, hw, hvalue⟩ := hvalues m hmem
    exact List.mem_map.mpr ⟨(m.1, w), hw, by rw [hvalue]⟩
  have hperm : (canonicalMembers ms).Perm (canonicalMembers ns) := by
    refine (List.subperm_of_subset (List.Nodup.of_map _ hmembers) hsubset).perm_of_length_le ?_
    rw [canonicalMembers_eq, canonicalMembers_eq, List.length_map, List.length_map, hlength]
  rw [canonicalValue, canonicalValue, sortKeys_eq hperm hmembers]

mutual
theorem canonicalValue_same : ∀ v w : Json JsString, IsValue jsNumber v → Same v w → canonicalValue v = canonicalValue w
  | .null, .null, _, _ => rfl
  | .bool _, .bool _, _, h => congrArg Json.bool h
  | .num _, .num _, _, h => congrArg Json.num h
  | .str _, .str _, _, h => congrArg Json.str h
  | .arr xs, .arr ys, hv, h => congrArg Json.arr (canonicalElems_same xs ys hv h)
  | .obj ms, .obj ns, hv, h => canonicalObject_eq h.1 hv.1 (canonicalMembers_same ms ns hv.2 h.2)

theorem canonicalElems_same : ∀ xs ys : List (Json JsString), AreValues jsNumber xs → SameElems xs ys →
    canonicalElems xs = canonicalElems ys
  | [], [], _, _ => rfl
  | x :: xs, y :: ys, hv, h => by
    rw [canonicalElems, canonicalElems, canonicalValue_same x y hv.1 h.1, canonicalElems_same xs ys hv.2 h.2]

theorem canonicalMembers_same : ∀ ms ns : List (JsString × Json JsString), HaveValues jsNumber ms → SameMembers ms ns →
    ∀ m ∈ ms, ∃ w, (m.1, w) ∈ ns ∧ canonicalValue m.2 = canonicalValue w
  | [], _, _, _ => by simp
  | (k, v) :: ms, ns, hv, h => by
    intro m hm
    rcases List.mem_cons.mp hm with rfl | hm
    · obtain ⟨w, hw, hsame⟩ := h.1
      exact ⟨w, hw, canonicalValue_same v w hv.1 hsame⟩
    · exact canonicalMembers_same ms ns hv.2 h.2 m hm
end

mutual
/-- The canonical value is the value. -/
theorem same_canonicalValue : ∀ v : Json JsString, Same (canonicalValue v) v
  | .null => trivial
  | .bool _ => rfl
  | .num _ => rfl
  | .str _ => rfl
  | .arr xs => same_canonicalElems xs
  | .obj ms => by
    have hperm := canonicalOrder_perm (canonicalMembers ms)
    refine ⟨canonicalMembers_names ms ▸ hperm.map Prod.fst, (sameMembers_iff _ _).mpr fun m hm => ?_⟩
    exact same_canonicalMembers ms m (hperm.mem_iff.mp hm)

theorem same_canonicalElems : ∀ xs : List (Json JsString), SameElems (canonicalElems xs) xs
  | [] => trivial
  | x :: xs => ⟨same_canonicalValue x, same_canonicalElems xs⟩

theorem same_canonicalMembers : ∀ ms : List (JsString × Json JsString), ∀ m ∈ canonicalMembers ms,
    ∃ w, (m.1, w) ∈ ms ∧ Same m.2 w
  | [], m, hm => nomatch hm
  | (k, v) :: ms, m, hm => by
    rcases List.mem_cons.mp hm with rfl | hm
    · exact ⟨v, List.mem_cons_self, same_canonicalValue v⟩
    · obtain ⟨w, hw, hsame⟩ := same_canonicalMembers ms m hm
      exact ⟨w, List.mem_cons_of_mem _ hw, hsame⟩
end

mutual
/-- What is the same as one value is the same. -/
theorem same_of_same : ∀ c v w : Json JsString, IsValue jsNumber c → Same c v → Same c w → Same v w
  | .null, .null, .null, _, _, _ => trivial
  | .bool _, .bool _, .bool _, _, hv, hw => hv.symm.trans hw
  | .num _, .num _, .num _, _, hv, hw => hv.symm.trans hw
  | .str _, .str _, .str _, _, hv, hw => hv.symm.trans hw
  | .arr cs, .arr xs, .arr ys, hc, hv, hw => sameElems_of_same cs xs ys hc hv hw
  | .obj cs, .obj ms, .obj ns, hc, hv, hw => by
    refine ⟨hv.1.symm.trans hw.1, (sameMembers_iff _ _).mpr fun m hm => ?_⟩
    have hname : m.1 ∈ cs.map Prod.fst := hv.1.mem_iff.mpr (List.mem_map_of_mem hm)
    obtain ⟨c, hcm, hk⟩ := List.mem_map.mp hname
    obtain ⟨x, hx, hcx⟩ := (sameMembers_iff _ _).mp hv.2 c hcm
    obtain ⟨y, hy, hcy⟩ := (sameMembers_iff _ _).mp hw.2 c hcm
    -- the names of the other object are different too, so its member of this name is the one
    have hnodup : (ms.map Prod.fst).Nodup := hv.1.nodup_iff.mp hc.1
    have hxm : (c.1, x) = m := List.inj_on_of_nodup_map hnodup hx hm hk
    rw [← hxm]
    exact ⟨y, hy, sameMembers_of_same cs hc.2 c hcm x y hcx hcy⟩

theorem sameElems_of_same : ∀ cs xs ys : List (Json JsString), AreValues jsNumber cs → SameElems cs xs → SameElems cs ys →
    SameElems xs ys
  | [], [], [], _, _, _ => trivial
  | c :: cs, x :: xs, y :: ys, hc, hv, hw =>
    ⟨same_of_same c x y hc.1 hv.1 hw.1, sameElems_of_same cs xs ys hc.2 hv.2 hw.2⟩

theorem sameMembers_of_same : ∀ cs : List (JsString × Json JsString), HaveValues jsNumber cs → ∀ c ∈ cs,
    ∀ x y, Same c.2 x → Same c.2 y → Same x y
  | [], _, c, hcm => nomatch hcm
  | (k, v) :: cs, hc, c, hcm => by
    rcases List.mem_cons.mp hcm with rfl | hcm
    · exact fun x y => same_of_same v x y hc.1
    · exact sameMembers_of_same cs hc.2 c hcm
end

mutual
theorem isValue_canonicalValue : ∀ v : Json JsString, IsValue jsNumber v → IsValue jsNumber (canonicalValue v)
  | .null, _ => trivial
  | .bool _, _ => trivial
  | .num _, h => h
  | .str _, _ => trivial
  | .arr xs, h => areValues_canonicalElems xs h
  | .obj ms, h => by
    have hperm := canonicalOrder_perm (canonicalMembers ms)
    refine ⟨(hperm.map Prod.fst).nodup_iff.mpr (canonicalMembers_names ms ▸ h.1), (haveValues_iff _).mpr fun m hm => ?_⟩
    exact (haveValues_iff _).mp (haveValues_canonicalMembers ms h.2) m (hperm.mem_iff.mp hm)

theorem areValues_canonicalElems : ∀ xs : List (Json JsString), AreValues jsNumber xs → AreValues jsNumber (canonicalElems xs)
  | [], _ => trivial
  | x :: xs, h => ⟨isValue_canonicalValue x h.1, areValues_canonicalElems xs h.2⟩

theorem haveValues_canonicalMembers : ∀ ms : List (JsString × Json JsString), HaveValues jsNumber ms →
    HaveValues jsNumber (canonicalMembers ms)
  | [], _ => trivial
  | (_, v) :: ms, h => ⟨isValue_canonicalValue v h.1, haveValues_canonicalMembers ms h.2⟩
end

/-! ## Reading the text -/

mutual
/-- A canonical value is the value that its text denotes. -/
theorem jsValue_canonicalValue : ∀ v : Json JsString, IsValue jsNumber v →
    jsValue jsNumber (canonicalValue v) = canonicalValue v
  | .null, _ => rfl
  | .bool _, _ => rfl
  | .num _, h => congrArg Json.num h
  | .str _, _ => rfl
  | .arr xs, h => congrArg Json.arr (jsElems_canonicalElems xs h)
  | .obj ms, h => by
    have hperm := canonicalOrder_perm (canonicalMembers ms)
    have hnodup : ((fromEntries (sortKeys (canonicalMembers ms))).map Prod.fst).Nodup :=
      (hperm.map Prod.fst).nodup_iff.mpr (canonicalMembers_names ms ▸ h.1)
    have hmembers : jsMembers jsNumber (fromEntries (sortKeys (canonicalMembers ms))) =
        fromEntries (sortKeys (canonicalMembers ms)) := by
      rw [jsMembers_eq]
      refine (List.map_congr_left fun m hm => ?_).trans (List.map_id _)
      rw [jsMembers_canonicalMembers ms h.2 m (hperm.mem_iff.mp hm)]
      rfl
    rw [canonicalValue, jsValue, hmembers, setMember_foldl (by simpa using hnodup), List.nil_append, fromEntries_idem]

theorem jsElems_canonicalElems : ∀ xs : List (Json JsString), AreValues jsNumber xs →
    jsElems jsNumber (canonicalElems xs) = canonicalElems xs
  | [], _ => rfl
  | x :: xs, h => by
    rw [canonicalElems, jsElems, jsValue_canonicalValue x h.1, jsElems_canonicalElems xs h.2]

theorem jsMembers_canonicalMembers : ∀ ms : List (JsString × Json JsString), HaveValues jsNumber ms →
    ∀ m ∈ canonicalMembers ms, jsValue jsNumber m.2 = m.2
  | [], _, m, hm => nomatch hm
  | (k, v) :: ms, h, m, hm => by
    rcases List.mem_cons.mp hm with rfl | hm
    · exact jsValue_canonicalValue v h.1
    · exact jsMembers_canonicalMembers ms h.2 m hm
end

theorem jsonParse_canonicalJson {v : Json JsString} (h : IsValue jsNumber v) :
    jsonParse jsNumber (canonicalJson v) = some (canonicalValue v) := by
  rw [jsonParse, canonicalJson, read_print reads_jsQuote readsBack_jsQuote, Option.map_some, jsValue_canonicalValue v h]

/-- Two values have one text just if they are the same, and the text is that of
what is read from it. -/
theorem canonicalJson_canonical (v : Json JsString) (hv : IsValue jsNumber v) :
    (∀ w, IsValue jsNumber w → (canonicalJson v = canonicalJson w ↔ Same v w)) ∧
      ∃ parsed, jsonParse jsNumber (canonicalJson v) = some parsed ∧ Same parsed v ∧ canonicalJson parsed = canonicalJson v := by
  refine ⟨fun w hw => ⟨fun h => ?_, fun h => ?_⟩, canonicalValue v, jsonParse_canonicalJson hv, same_canonicalValue v, ?_⟩
  · have hvalues : canonicalValue v = canonicalValue w := print_inj reads_jsQuote readsBack_jsQuote h
    exact same_of_same _ v w (isValue_canonicalValue v hv) (same_canonicalValue v) (hvalues ▸ same_canonicalValue w)
  · rw [canonicalJson, canonicalJson, canonicalValue_same v w hv h]
  · rw [canonicalJson, canonicalJson,
      canonicalValue_same _ _ (isValue_canonicalValue v hv) (same_canonicalValue v)]

/-! ## Members in another order -/

theorem same_refl {v : Json JsString} (h : IsValue jsNumber v) : Same v v :=
  same_of_same (canonicalValue v) v v (isValue_canonicalValue v h) (same_canonicalValue v) (same_canonicalValue v)

theorem same_of_perm {ms ns : List (JsString × Json JsString)} (h : IsValue jsNumber (.obj ms)) (hperm : ms.Perm ns) :
    Same (.obj ms) (.obj ns) := by
  refine ⟨hperm.map Prod.fst, (sameMembers_iff _ _).mpr fun m hm => ⟨m.2, hperm.mem_iff.mp hm, ?_⟩⟩
  exact same_refl ((haveValues_iff ms).mp h.2 m hm)

end

/-- Array indices first, in their order, and two other names. -/
def sampleMembers : List (JsString × Json JsString) :=
  [(units "9", .null), (units "10", .bool true), (units "b", .num (.ofNat 1)), (units "a", .arr [.null])]

theorem sampleMembers_isValue : IsValue id (.obj sampleMembers) ∧ IsValue id (.obj sampleMembers.reverse) := by
  have hnodup : (sampleMembers.map Prod.fst).Nodup := by decide +kernel
  have hvalues : ∀ m ∈ sampleMembers, IsValue id m.2 := by simp [sampleMembers, IsValue, AreValues]
  refine ⟨⟨hnodup, (haveValues_iff _).mpr hvalues⟩, ?_, (haveValues_iff _).mpr fun m hm => hvalues m (List.mem_reverse.mp hm)⟩
  rw [List.map_reverse, List.nodup_reverse]
  exact hnodup

theorem sampleMembers_text : canonicalJson (.obj sampleMembers) = canonicalJson (.obj sampleMembers.reverse) :=
  ((canonicalJson_canonical (.obj sampleMembers) sampleMembers_isValue.1).1 (.obj sampleMembers.reverse)
    sampleMembers_isValue.2).mpr (same_of_perm sampleMembers_isValue.1 (List.reverse_perm _).symm)

end Omapkg.Server
