import Mathlib.Order.Compare
import Omapkg.Server.AlpmVersion
/-!
# The order of versions

The loop of `compareVersionText` over the code units of two texts, round by round.
Each round takes something from both texts, and what they are compared by is a list of
keys: a text that ends stands between letters and digits.
-/

namespace Omapkg.Server.Arch

open Utf

/-! ## The loop -/

def digitUnit (u : Nat) : Bool := 0x30 ≤ u && u ≤ 0x39

def alphaUnit (u : Nat) : Bool := (0x41 ≤ u && u ≤ 0x5A) || (0x61 ≤ u && u ≤ 0x7A)

/-- `replace(/^0+(?=\d)/, '')` of digits. -/
def stripZeroUnits (digits : List Nat) : List Nat :=
  match digits.dropWhile (· = 0x30) with
  | [] => digits.take 1
  | rest => rest

def skipSeparators (text : List Nat) : List Nat := text.dropWhile fun u => !digitUnit u && !alphaUnit u

/-- A round of the loop: an answer, or what is left of both texts. -/
def versionRound (left right : List Nat) : Ordering ⊕ (List Nat × List Nat) :=
  if left = [] ∧ right = [] then .inl .eq
  else
    match skipSeparators left, skipSeparators right with
    | [], [] => .inl .eq
    | [], r :: _ => .inl (if digitUnit r then .lt else .gt)
    | l :: _, [] => .inl (if digitUnit l then .gt else .lt)
    | l :: ls, r :: rs =>
      if digitUnit l ≠ digitUnit r then .inl (if digitUnit l then .gt else .lt)
      else if digitUnit l then
        let leftDigits := stripZeroUnits ((l :: ls).takeWhile digitUnit)
        let rightDigits := stripZeroUnits ((r :: rs).takeWhile digitUnit)
        if leftDigits.length ≠ rightDigits.length then
          .inl (if leftDigits.length < rightDigits.length then .lt else .gt)
        else if leftDigits ≠ rightDigits then .inl (if leftDigits < rightDigits then .lt else .gt)
        else .inr ((l :: ls).dropWhile digitUnit, (r :: rs).dropWhile digitUnit)
      else
        let leftText := (l :: ls).takeWhile alphaUnit
        let rightText := (r :: rs).takeWhile alphaUnit
        if leftText ≠ rightText then .inl (if leftText < rightText then .lt else .gt)
        else .inr ((l :: ls).dropWhile alphaUnit, (r :: rs).dropWhile alphaUnit)

theorem length_dropWhile_lt {p : Nat → Bool} {u : Nat} {text : List Nat} (h : p u = true) :
    ((u :: text).dropWhile p).length < (u :: text).length := by
  rw [List.dropWhile_cons_of_pos h, List.length_cons]
  have := List.length_dropWhile_le p text
  omega

theorem skipSeparators_head {text rest : List Nat} {u : Nat} (h : skipSeparators text = u :: rest) :
    (digitUnit u || alphaUnit u) = true := by
  have hne : skipSeparators text ≠ [] := by
    rw [h]
    exact List.cons_ne_nil _ _
  have hhead : (skipSeparators text).head hne = u := by simp [h]
  have hnot : (!digitUnit ((skipSeparators text).head hne) && !alphaUnit ((skipSeparators text).head hne)) = false :=
    List.head_dropWhile_not (fun u => !digitUnit u && !alphaUnit u) hne
  rw [hhead] at hnot
  simpa [← Bool.not_or] using hnot

/-- A round that goes on takes something from both texts. -/
theorem versionRound_consumes {left right left' right' : List Nat} (h : versionRound left right = .inr (left', right')) :
    left'.length < left.length ∧ right'.length < right.length := by
  have hskip (text : List Nat) : (skipSeparators text).length ≤ text.length := List.length_dropWhile_le _ _
  unfold versionRound at h
  split_ifs at h
  have hl := hskip left
  have hr := hskip right
  split at h
  · cases h
  · cases h
  · cases h
  · next l ls r rs hleft hright =>
    rw [hleft] at hl
    rw [hright] at hr
    split_ifs at h with hkind hdigit
    · simp only at h
      split_ifs at h
      obtain ⟨rfl, rfl⟩ := Prod.mk.inj (Sum.inr.inj h)
      have hright' : digitUnit r = true := (not_ne_iff.mp hkind) ▸ hdigit
      exact ⟨(length_dropWhile_lt hdigit).trans_le hl, (length_dropWhile_lt hright').trans_le hr⟩
    · simp only at h
      split_ifs at h
      obtain ⟨rfl, rfl⟩ := Prod.mk.inj (Sum.inr.inj h)
      have hl' : alphaUnit l = true := by simpa [hdigit] using skipSeparators_head hleft
      have hr' : alphaUnit r = true := by
        have hdigit' : digitUnit r = false := by simpa [← not_ne_iff.mp hkind] using hdigit
        simpa [hdigit'] using skipSeparators_head hright
      exact ⟨(length_dropWhile_lt hl').trans_le hl, (length_dropWhile_lt hr').trans_le hr⟩

/-- `compareVersionText`: rounds until one answers. -/
def versionLoop (left right : List Nat) : Ordering :=
  match _h : versionRound left right with
  | .inl answer => answer
  | .inr (left', right') => versionLoop left' right'
termination_by left.length
decreasing_by exact (versionRound_consumes _h).1

/-! ## Keys -/

/-- Letters come first, then the end of a text, then digits: these by their length first. -/
abbrev VersionKey := Nat × Nat × List Nat

def compareKeys : VersionKey → VersionKey → Ordering :=
  compareLex (compareOn (·.1)) (compareLex (compareOn (·.2.1)) fun a b => List.compareLex compare a.2.2 b.2.2)

instance : Std.TransCmp fun a b : VersionKey => List.compareLex compare a.2.2 b.2.2 where
  eq_swap {_ _} := @Std.OrientedCmp.eq_swap _ (List.compareLex compare) _ _ _
  isLE_trans {_ _ _} := @Std.TransCmp.isLE_trans _ (List.compareLex compare) _ _ _ _

instance : Std.TransCmp compareKeys := inferInstanceAs (Std.TransCmp (compareLex _ _))

def letterKey (text : List Nat) : VersionKey := (0, 0, text)

def endKey : VersionKey := (1, 0, [])

def digitKey (digits : List Nat) : VersionKey := (2, (stripZeroUnits digits).length, stripZeroUnits digits)

/-- The keys of the segments of a text. -/
def segmentKeys (text : List Nat) : List VersionKey :=
  match _h : skipSeparators text with
  | [] => []
  | u :: us =>
    if _hd : digitUnit u = true then digitKey ((u :: us).takeWhile digitUnit) :: segmentKeys ((u :: us).dropWhile digitUnit)
    else letterKey ((u :: us).takeWhile alphaUnit) :: segmentKeys ((u :: us).dropWhile alphaUnit)
termination_by text.length
decreasing_by
  · have hlt : ((u :: us).dropWhile digitUnit).length < (u :: us).length := length_dropWhile_lt _hd
    have hle := List.length_dropWhile_le (fun u => !digitUnit u && !alphaUnit u) text
    rw [← skipSeparators, _h] at hle
    omega
  · have halpha : alphaUnit u = true := by simpa [_hd] using skipSeparators_head _h
    have hlt : ((u :: us).dropWhile alphaUnit).length < (u :: us).length := length_dropWhile_lt halpha
    have hle := List.length_dropWhile_le (fun u => !digitUnit u && !alphaUnit u) text
    rw [← skipSeparators, _h] at hle
    omega

def versionKeys (text : List Nat) : List VersionKey := segmentKeys text ++ [endKey]

theorem segmentKeys_nil {text : List Nat} (h : skipSeparators text = []) : segmentKeys text = [] := by
  rw [segmentKeys]
  split
  · rfl
  · next heq => rw [h] at heq; cases heq

theorem segmentKeys_digits {text us : List Nat} {u : Nat} (h : skipSeparators text = u :: us) (hd : digitUnit u = true) :
    segmentKeys text = digitKey ((u :: us).takeWhile digitUnit) :: segmentKeys ((u :: us).dropWhile digitUnit) := by
  rw [segmentKeys]
  split
  · next heq => rw [h] at heq; cases heq
  · next heq =>
    rw [h] at heq
    obtain ⟨rfl, rfl⟩ := List.cons.inj heq
    rw [dif_pos hd]

theorem segmentKeys_letters {text us : List Nat} {u : Nat} (h : skipSeparators text = u :: us) (hd : digitUnit u = false) :
    segmentKeys text = letterKey ((u :: us).takeWhile alphaUnit) :: segmentKeys ((u :: us).dropWhile alphaUnit) := by
  rw [segmentKeys]
  split
  · next heq => rw [h] at heq; cases heq
  · next heq =>
    rw [h] at heq
    obtain ⟨rfl, rfl⟩ := List.cons.inj heq
    rw [dif_neg (by simp [hd])]

/-- Lengths compared as the source compares them. -/
theorem compare_lengths {a b : Nat} (h : a ≠ b) : (if a < b then Ordering.lt else .gt) = compare a b := by
  rcases lt_or_gt_of_ne h with hlt | hgt
  · rw [if_pos hlt, compare_lt_iff_lt.mpr hlt]
  · rw [if_neg (not_lt_of_gt hgt), compare_gt_iff_gt.mpr hgt]

theorem compareLex_texts (a b : List Nat) :
    List.compareLex compare a b = if a = b then Ordering.eq else if a < b then .lt else .gt := by
  induction a generalizing b with
  | nil => cases b <;> simp [List.compareLex_nil_nil, List.compareLex_nil_cons]
  | cons x xs ih =>
    cases b with
    | nil => simp [List.compareLex_cons_nil]
    | cons y ys =>
      rw [List.compareLex_cons_cons]
      rcases lt_trichotomy x y with hlt | rfl | hgt
      · simp [compare_lt_iff_lt.mpr hlt, List.cons_lt_cons_iff, hlt, hlt.ne]
      · simp [ih]
      · simp [compare_gt_iff_gt.mpr hgt, List.cons_lt_cons_iff, hgt.ne', not_lt_of_gt hgt]

/-- Texts compared as the source compares them. -/
theorem compare_texts {a b : List Nat} (h : a ≠ b) :
    (if a < b then Ordering.lt else .gt) = List.compareLex compare a b := by
  rw [compareLex_texts, if_neg h]

theorem compareLex_eq_eq {a b : List Nat} : List.compareLex compare a b = .eq ↔ a = b := by
  rw [compareLex_texts]
  split_ifs <;> simp [*]

theorem compareKeys_letters (a b : List Nat) : compareKeys (letterKey a) (letterKey b) = List.compareLex compare a b := rfl

theorem compareKeys_digits (a b : List Nat) : compareKeys (digitKey a) (digitKey b) =
    (compare (stripZeroUnits a).length (stripZeroUnits b).length).then
      (List.compareLex compare (stripZeroUnits a) (stripZeroUnits b)) := rfl

theorem versionLoop_answer {left right : List Nat} {answer : Ordering} (h : versionRound left right = .inl answer) :
    versionLoop left right = answer := by
  rw [versionLoop]
  split
  · next heq => exact Sum.inl.inj (heq.symm.trans h)
  · next heq => cases heq.symm.trans h

theorem versionLoop_next {left right left' right' : List Nat} (h : versionRound left right = .inr (left', right')) :
    versionLoop left right = versionLoop left' right' := by
  rw [versionLoop]
  split
  · next heq => cases heq.symm.trans h
  · next heq =>
    obtain ⟨rfl, rfl⟩ := Prod.mk.inj (Sum.inr.inj (heq.symm.trans h))
    rfl

theorem versionRound_ended {left right : List Nat} (hl : skipSeparators left = []) (hr : skipSeparators right = []) :
    versionRound left right = .inl .eq := by
  unfold versionRound
  rw [hl, hr]
  split_ifs <;> rfl

theorem versionRound_started {left right : List Nat} (h : skipSeparators left ≠ [] ∨ skipSeparators right ≠ []) :
    ¬(left = [] ∧ right = []) := by
  rintro ⟨rfl, rfl⟩
  rcases h with h | h <;> exact h rfl

theorem versionLoop_eq (left right : List Nat) :
    versionLoop left right = List.compareLex compareKeys (versionKeys left) (versionKeys right) := by
  induction hn : left.length using Nat.strong_induction_on generalizing left right with
  | _ n ih =>
    cases hl : skipSeparators left with
    | nil =>
      have hleft : versionKeys left = [endKey] := by rw [versionKeys, segmentKeys_nil hl, List.nil_append]
      cases hr : skipSeparators right with
      | nil =>
        rw [versionLoop_answer (versionRound_ended hl hr), hleft, versionKeys, segmentKeys_nil hr]
        rfl
      | cons r rs =>
        have hround : versionRound left right = .inl (if digitUnit r then .lt else .gt) := by
          unfold versionRound
          rw [if_neg (versionRound_started (.inr (by simp [hr]))), hl, hr]
        rw [versionLoop_answer hround, hleft, versionKeys]
        cases hd : digitUnit r with
        | true => rw [segmentKeys_digits hr hd]; rfl
        | false => rw [segmentKeys_letters hr hd]; rfl
    | cons l ls =>
      have hstarted : ¬(left = [] ∧ right = []) := versionRound_started (.inl (by simp [hl]))
      cases hr : skipSeparators right with
      | nil =>
        have hround : versionRound left right = .inl (if digitUnit l then .gt else .lt) := by
          unfold versionRound
          rw [if_neg hstarted, hl, hr]
        have hright : versionKeys right = [endKey] := by rw [versionKeys, segmentKeys_nil hr, List.nil_append]
        rw [versionLoop_answer hround, hright, versionKeys]
        cases hd : digitUnit l with
        | true => rw [segmentKeys_digits hl hd]; rfl
        | false => rw [segmentKeys_letters hl hd]; rfl
      | cons r rs =>
        have hround : versionRound left right = versionRound left right := rfl
        conv_rhs at hround => unfold versionRound
        rw [if_neg hstarted, hl, hr] at hround
        simp only at hround
        cases hd : digitUnit l with
        | true =>
          cases hd' : digitUnit r with
          | false =>
            rw [hd, hd', if_pos (by decide)] at hround
            rw [versionLoop_answer hround, versionKeys, versionKeys, segmentKeys_digits hl hd, segmentKeys_letters hr hd']
            rfl
          | true =>
            rw [hd, hd', if_neg (by decide), if_pos rfl] at hround
            rw [versionKeys, versionKeys, segmentKeys_digits hl hd, segmentKeys_digits hr hd', List.cons_append,
              List.cons_append, List.compareLex_cons_cons, compareKeys_digits]
            by_cases hlength : (stripZeroUnits ((l :: ls).takeWhile digitUnit)).length ≠
              (stripZeroUnits ((r :: rs).takeWhile digitUnit)).length
            · rw [if_pos hlength, compare_lengths hlength] at hround
              rw [versionLoop_answer hround]
              cases hc : compare (stripZeroUnits ((l :: ls).takeWhile digitUnit)).length
                (stripZeroUnits ((r :: rs).takeWhile digitUnit)).length with
              | eq => exact absurd (compare_eq_iff_eq.mp hc) hlength
              | lt => rfl
              | gt => rfl
            rw [if_neg hlength] at hround
            by_cases htext : stripZeroUnits ((l :: ls).takeWhile digitUnit) ≠ stripZeroUnits ((r :: rs).takeWhile digitUnit)
            · rw [if_pos htext, compare_texts htext] at hround
              rw [versionLoop_answer hround, compare_eq_iff_eq.mpr (not_ne_iff.mp hlength)]
              cases hc : List.compareLex compare (stripZeroUnits ((l :: ls).takeWhile digitUnit))
                (stripZeroUnits ((r :: rs).takeWhile digitUnit)) with
              | eq => exact absurd (compareLex_eq_eq.mp hc) htext
              | lt => rfl
              | gt => rfl
            · rw [if_neg htext] at hround
              have hshort := (versionRound_consumes hround).1
              rw [versionLoop_next hround, ih _ (hn ▸ hshort) _ _ rfl, compare_eq_iff_eq.mpr (not_ne_iff.mp hlength),
                compareLex_eq_eq.mpr (not_ne_iff.mp htext)]
              rfl
        | false =>
          cases hd' : digitUnit r with
          | true =>
            rw [hd, hd', if_pos (by decide)] at hround
            rw [versionLoop_answer hround, versionKeys, versionKeys, segmentKeys_letters hl hd, segmentKeys_digits hr hd']
            rfl
          | false =>
            rw [hd, hd', if_neg (by decide), if_neg (by decide)] at hround
            rw [versionKeys, versionKeys, segmentKeys_letters hl hd, segmentKeys_letters hr hd', List.cons_append,
              List.cons_append, List.compareLex_cons_cons, compareKeys_letters]
            by_cases htext : (l :: ls).takeWhile alphaUnit ≠ (r :: rs).takeWhile alphaUnit
            · rw [if_pos htext, compare_texts htext] at hround
              rw [versionLoop_answer hround]
              cases hc : List.compareLex compare ((l :: ls).takeWhile alphaUnit) ((r :: rs).takeWhile alphaUnit) with
              | eq => exact absurd (compareLex_eq_eq.mp hc) htext
              | lt => rfl
              | gt => rfl
            · rw [if_neg htext] at hround
              have hshort := (versionRound_consumes hround).1
              rw [versionLoop_next hround, ih _ (hn ▸ hshort) _ _ rfl, compareLex_eq_eq.mpr (not_ne_iff.mp htext)]
              rfl

instance : Std.TransCmp versionLoop := by
  have hkeys : versionLoop = fun left right => List.compareLex compareKeys (versionKeys left) (versionKeys right) :=
    funext fun left => funext fun right => versionLoop_eq left right
  rw [hkeys]
  exact { eq_swap := fun {_ _} => @Std.OrientedCmp.eq_swap _ (List.compareLex compareKeys) _ _ _
          isLE_trans := fun {_ _ _} => @Std.TransCmp.isLE_trans _ (List.compareLex compareKeys) _ _ _ _ }

/-! ## Segments

The segments of a version are what the loop takes from it. -/

def points (s : List Char) : List Nat := s.map Char.toNat

def segmentKey : Segment → VersionKey
  | .digits s => digitKey (points s)
  | .letters s => letterKey (points s)

theorem digitUnit_toNat (c : Char) : digitUnit c.toNat = c.isDigit := by
  simp only [digitUnit, Char.isDigit, ge_iff_le, UInt32.le_iff_toNat_le]
  rfl

theorem alphaUnit_toNat (c : Char) : alphaUnit c.toNat = c.isAlpha := by
  have hupper : c.isUpper = decide (c.val ≥ 'A'.val ∧ c.val ≤ 'Z'.val) := rfl
  have hlower : c.isLower = (c.val ≥ 'a'.val && c.val ≤ 'z'.val) := rfl
  have halpha : c.isAlpha = (c.isUpper || c.isLower) := rfl
  rw [Bool.eq_iff_iff]
  simp only [alphaUnit, halpha, hupper, hlower, Bool.or_eq_true, Bool.and_eq_true, decide_eq_true_eq,
    ge_iff_le, UInt32.le_iff_toNat_le]
  rfl

theorem compareChars_points (a b : List Char) : compareChars a b = List.compareLex compare (points a) (points b) := by
  induction a generalizing b with
  | nil => cases b <;> rfl
  | cons x xs ih =>
    cases b with
    | nil => rfl
    | cons y ys =>
      have hlt (c d : Char) : c < d ↔ c.toNat < d.toNat := UInt32.lt_iff_toNat_lt
      rw [points, points, List.map_cons, List.map_cons, List.compareLex_cons_cons, ← points, ← points, ← ih]
      rcases lt_trichotomy x.toNat y.toNat with h | h | h
      · rw [compare_lt_iff_lt.mpr h, compareChars_lt.mpr (List.cons_lt_cons_iff.mpr (.inl ((hlt x y).mpr h)))]
        rfl
      · obtain rfl : x = y := Char.toNat_inj.mp h
        simp [compareChars]
      · have hne : x ≠ y := fun heq => h.ne (congrArg Char.toNat heq).symm
        have hnot : ¬x < y := fun hxy => lt_asymm h ((hlt x y).mp hxy)
        rw [compare_gt_iff_gt.mpr h]
        simp [compareChars, List.cons_lt_cons_iff, hne, hnot]

theorem points_stripZeros (ds : List Char) : points (stripZeros ds) = stripZeroUnits (points ds) := by
  have hzero : (fun c : Char => decide (c = '0')) = (fun u => decide (u = 0x30)) ∘ Char.toNat := by
    funext c
    have h : c = '0' ↔ c.toNat = 0x30 := by
      rw [← Char.toNat_inj]
      rfl
    simp [h]
  unfold stripZeros stripZeroUnits
  rw [points, points, List.dropWhile_map, ← hzero]
  cases ds.dropWhile (· = '0') with
  | nil => simp [List.map_take]
  | cons c cs => rfl

theorem compareSegments_keys (left right : List Segment) : compareSegments left right =
    List.compareLex compareKeys (left.map segmentKey ++ [endKey]) (right.map segmentKey ++ [endKey]) := by
  induction left generalizing right with
  | nil =>
    cases right with
    | nil => rfl
    | cons b right => cases b <;> rfl
  | cons a left ih =>
    cases right with
    | nil => cases a <;> rfl
    | cons b right =>
      rw [List.map_cons, List.map_cons, List.cons_append, List.cons_append, List.compareLex_cons_cons, ← ih]
      cases a with
      | digits a =>
        cases b with
        | letters b => rfl
        | digits b =>
          have hlength (ds : List Char) : (points ds).length = ds.length := List.length_map _
          rw [segmentKey, segmentKey, compareKeys_digits, ← points_stripZeros, ← points_stripZeros, hlength, hlength,
            ← compareChars_points]
          rfl
      | letters a =>
        cases b with
        | digits b => rfl
        | letters b =>
          rw [segmentKey, segmentKey, compareKeys_letters, ← compareChars_points]
          rfl

/-- What is of one kind and ends before another kind is split off. -/
theorem segments_append {run rest : List Char} (hne : run ≠ []) (hkind : ∀ a ∈ run, ∀ b ∈ run, alike a b = true)
    (hcut : ∀ a ∈ run, ∀ b ∈ rest.head?, alike a b = false) :
    segments (run ++ rest) = (segmentOf run).toList ++ segments rest := by
  have hchain : run.IsChain fun a b => alike a b := by
    refine List.isChain_iff_getElem.mpr fun i hi => ?_
    exact hkind _ (List.getElem_mem _) _ (List.getElem_mem _)
  rw [segments_eq, List.splitBy_append fun a ha b hb => hcut a (List.mem_of_mem_getLast? ha) b hb,
    List.splitBy_of_isChain hne hchain, List.filterMap_append, ← segments_eq]
  cases hrun : segmentOf run <;> simp [hrun]

theorem segments_takeWhile {p : Char → Bool} (hp : ∀ a b, p a = true → alike a b = p b) {s : List Char} {c : Char}
    (hs : s.head? = some c) (hc : p c = true) :
    segments s = (segmentOf (s.takeWhile p)).toList ++ segments (s.dropWhile p) := by
  have hne : s.takeWhile p ≠ [] := by
    cases s with
    | nil => cases hs
    | cons a s =>
      cases hs
      simp [hc]
  have hall : ∀ a ∈ s.takeWhile p, p a = true := fun a ha => List.mem_takeWhile_imp ha
  conv_lhs => rw [← List.takeWhile_append_dropWhile (p := p) (l := s)]
  refine segments_append hne (fun a ha b hb => (hp a b (hall a ha)).trans (hall b hb)) fun a ha b hb => ?_
  rw [hp a b (hall a ha)]
  have hnot := List.head?_dropWhile_not p s
  rw [Option.mem_def.mp hb] at hnot
  simpa using hnot

def separates (c : Char) : Bool := !c.isDigit && !c.isAlpha

theorem separates_iff {c : Char} : separates c = true ↔ c.isDigit = false ∧ c.isAlpha = false := by simp [separates]

theorem segments_skip (s : List Char) : segments s = segments (s.dropWhile separates) := by
  cases hs : s.takeWhile separates with
  | nil =>
    conv_lhs => rw [← List.takeWhile_append_dropWhile (p := separates) (l := s), hs]
    rfl
  | cons c cs =>
    have hc : separates c = true := List.mem_takeWhile_imp (hs ▸ List.mem_cons_self : c ∈ s.takeWhile separates)
    have hhead : s.head? = some c := by
      rw [← List.takeWhile_append_dropWhile (p := separates) (l := s), hs]
      rfl
    rw [segments_takeWhile (fun a b ha => ?_) hhead hc, hs]
    · obtain ⟨hdigit, halpha⟩ := separates_iff.mp hc
      simp [segmentOf, hdigit, halpha]
    · obtain ⟨hdigit, halpha⟩ := separates_iff.mp ha
      cases hd : b.isDigit <;> cases hb : b.isAlpha <;> simp [alike, separates, hdigit, halpha, hd, hb]

theorem alike_digit {a b : Char} (ha : a.isDigit = true) : alike a b = b.isDigit := by
  have halpha := isAlpha_of_isDigit ha
  cases hb : b.isDigit with
  | true => simp [alike, ha, hb, halpha, isAlpha_of_isDigit hb]
  | false => simp [alike, ha, hb]

theorem alike_alpha {a b : Char} (ha : a.isAlpha = true) : alike a b = b.isAlpha := by
  have hdigit (c : Char) (hc : c.isAlpha = true) : c.isDigit = false := by
    cases hd : c.isDigit with
    | true => exact absurd (isAlpha_of_isDigit hd) (by simp [hc])
    | false => rfl
  cases hb : b.isAlpha with
  | true => simp [alike, ha, hb, hdigit a ha, hdigit b hb]
  | false => simp [alike, ha, hb]

theorem segmentKeys_points (s : List Char) : segmentKeys (points s) = (segments s).map segmentKey := by
  induction hn : s.length using Nat.strong_induction_on generalizing s with
  | _ n ih =>
    have hpredicate (p : Nat → Bool) (q : Char → Bool) (h : ∀ c : Char, p c.toNat = q c) : p ∘ Char.toNat = q := funext h
    have hdigit := hpredicate digitUnit (·.isDigit) digitUnit_toNat
    have halpha := hpredicate alphaUnit (·.isAlpha) alphaUnit_toNat
    have hskip : skipSeparators (points s) = points (s.dropWhile separates) := by
      rw [skipSeparators, points, List.dropWhile_map, hpredicate _ separates fun c => ?_, points]
      rw [digitUnit_toNat, alphaUnit_toNat, separates]
    have hlength := List.length_dropWhile_le separates s
    rw [segments_skip]
    cases hs : s.dropWhile separates with
    | nil =>
      rw [hs] at hskip
      rw [segmentKeys_nil hskip]
      rfl
    | cons c cs =>
      rw [hs] at hskip hlength
      have hshort {p : Char → Bool} (hp : p c = true) : ((c :: cs).dropWhile p).length < n := by
        have hle := List.length_dropWhile_le p cs
        rw [List.dropWhile_cons_of_pos hp]
        simp only [List.length_cons] at hlength
        omega
      have hunits : points (c :: cs) = c.toNat :: points cs := rfl
      rw [hunits] at hskip
      cases hd : c.isDigit with
      | true =>
        have hkeys := ih _ (hshort (p := (·.isDigit)) hd) ((c :: cs).dropWhile (·.isDigit)) rfl
        rw [segmentKeys_digits hskip (by rw [digitUnit_toNat]; exact hd), ← hunits,
          segments_takeWhile (p := (·.isDigit)) (fun a b => alike_digit) List.head?_cons hd, points, List.takeWhile_map,
          List.dropWhile_map, hdigit, ← points, ← points, hkeys]
        have hall : ((c :: cs).takeWhile (·.isDigit)).all (·.isDigit) = true :=
          List.all_eq_true.mpr fun a ha => List.mem_takeWhile_imp (p := fun c : Char => c.isDigit) ha
        rw [segmentOf, if_pos hall]
        rfl
      | false =>
        have ha : c.isAlpha = true := by
          have hnot := List.head?_dropWhile_not separates s
          rw [hs] at hnot
          simpa [separates, hd] using hnot
        have hkeys := ih _ (hshort (p := (·.isAlpha)) ha) ((c :: cs).dropWhile (·.isAlpha)) rfl
        rw [segmentKeys_letters hskip (by rw [digitUnit_toNat]; exact hd), ← hunits,
          segments_takeWhile (p := (·.isAlpha)) (fun a b => alike_alpha) List.head?_cons ha, points, List.takeWhile_map,
          List.dropWhile_map, halpha, ← points, ← points, hkeys]
        have hall : ((c :: cs).takeWhile (·.isAlpha)).all (·.isAlpha) = true :=
          List.all_eq_true.mpr fun a ha => List.mem_takeWhile_imp (p := fun c : Char => c.isAlpha) ha
        have hnone : ((c :: cs).takeWhile (·.isAlpha)).all (·.isDigit) = false := by
          rw [List.takeWhile_cons_of_pos ha, List.all_cons, hd, Bool.false_and]
        rw [segmentOf, if_neg (by simp [hnone]), if_pos hall]
        rfl

/-- The rounds of the loop compare the segments of both versions. -/
theorem compareVersionText_eq (left right : List Char) :
    compareVersionText left right = versionLoop (points left) (points right) := by
  rw [compareVersionText, compareSegments_keys, versionLoop_eq, versionKeys, versionKeys, segmentKeys_points,
    segmentKeys_points]

instance : Std.TransCmp compareVersionText where
  eq_swap {a b} := by
    rw [compareVersionText_eq, compareVersionText_eq]
    exact @Std.OrientedCmp.eq_swap _ versionLoop _ _ _
  isLE_trans {a b c} := by
    rw [compareVersionText_eq, compareVersionText_eq, compareVersionText_eq]
    exact @Std.TransCmp.isLE_trans _ versionLoop _ _ _ _

/-! ## Texts of code units -/

/-- `compareVersionText` of two JavaScript strings. -/
def compareVersionUnits (left right : CodeUnits) : Ordering :=
  versionLoop (left.map UInt16.toNat) (right.map UInt16.toNat)

/-- The comparison is a total preorder, and no round of its loop takes nothing. -/
theorem compareVersionUnits_preorder :
    (∀ a, compareVersionUnits a a = .eq) ∧
    (∀ a b, compareVersionUnits a b = (compareVersionUnits b a).swap) ∧
    (∀ a b c, (compareVersionUnits a b).isLE → (compareVersionUnits b c).isLE → (compareVersionUnits a c).isLE) ∧
    ∀ left right left' right', versionRound left right = .inr (left', right') →
      left'.length < left.length ∧ right'.length < right.length :=
  ⟨fun _ => @Std.ReflCmp.compare_self _ versionLoop _ _, fun _ _ => @Std.OrientedCmp.eq_swap _ versionLoop _ _ _,
    fun _ _ _ hab hbc => @Std.TransCmp.isLE_trans _ versionLoop _ _ _ _ hab hbc,
    fun _ _ _ _ h => versionRound_consumes h⟩

end Omapkg.Server.Arch
