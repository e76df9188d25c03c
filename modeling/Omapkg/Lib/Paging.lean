import Mathlib
/-!
# Paging by a cursor

A list is read page by page, each page being the first elements whose key comes after the key of
the last element read. The list has an order of its own: where its keys do not follow it, a page
may leave elements out for good or take elements again.
-/

namespace Paging

variable {α κ : Type} [LinearOrder κ]

/-- Reads pages of `k` until one is empty, at most `fuel` of them. -/
def pages (k : Nat) (key : α → κ) : Nat → List α → Option (List α)
  | 0, _ => none
  | fuel + 1, l =>
    match (l.take k).getLast? with
    | none => some []
    | some a => (pages k key fuel (l.filter fun x => key a < key x)).map (l.take k ++ ·)

/-- Where a page ends, the keys before are no larger and those that follow are larger. -/
def Cut (k : Nat) (key : α → κ) (l : List α) : Prop :=
  ∀ before a after, l = before ++ a :: after → (before.length + 1) % k = 0 ∨ after = [] →
    (∀ x ∈ before, key x ≤ key a) ∧ ∀ y ∈ after, key a < key y

section
variable {k fuel : Nat} {key : α → κ} {l out : List α}

theorem take_of_getLast? {a : α} (h : (l.take k).getLast? = some a) :
    ∃ before, l.take k = before ++ [a] ∧ l = before ++ a :: l.drop k := by
  obtain ⟨before, hb⟩ := List.getLast?_eq_some_iff.mp h
  refine ⟨before, hb, ?_⟩
  calc l = l.take k ++ l.drop k := (List.take_append_drop k l).symm
    _ = before ++ a :: l.drop k := by rw [hb, List.append_assoc, List.singleton_append]

/-- The last element of a page is not in the next. -/
theorem filter_length_lt {a : α} (h : a ∈ l) : (l.filter fun x => key a < key x).length < l.length := by
  refine List.length_filter_lt_length_iff_exists.mpr ⟨a, h, ?_⟩
  simp

theorem pages_isSome (h : l.length < fuel) : (pages k key fuel l).isSome := by
  induction fuel generalizing l with
  | zero => exact absurd h (Nat.not_lt_zero _)
  | succ fuel ih =>
    unfold pages
    split
    · rfl
    · rename_i a ha
      have hmem : a ∈ l := List.mem_of_mem_take (List.mem_of_getLast? ha)
      rw [Option.isSome_map]
      exact ih (Nat.lt_of_lt_of_le (filter_length_lt hmem) (Nat.le_of_lt_succ h))

theorem pages_subset (h : pages k key fuel l = some out) : ∀ x ∈ out, x ∈ l := by
  induction fuel generalizing l out with
  | zero => cases h
  | succ fuel ih =>
    unfold pages at h
    split at h
    · cases h
      exact fun x hx => absurd hx List.not_mem_nil
    · obtain ⟨rest, hrest, rfl⟩ := Option.map_eq_some_iff.mp h
      intro x hx
      rcases List.mem_append.mp hx with hx | hx
      · exact List.mem_of_mem_take hx
      · exact List.mem_of_mem_filter (ih hrest x hx)

/-- What is left is not lost: its first element is read. -/
theorem pages_head (hk : 0 < k) {a : α} (h : pages k key fuel (a :: l) = some out) : a ∈ out := by
  obtain ⟨k, rfl⟩ := Nat.exists_eq_succ_of_ne_zero (Nat.ne_of_gt hk)
  cases fuel with
  | zero => cases h
  | succ fuel =>
    unfold pages at h
    split at h
    · rename_i hnone
      simp at hnone
    · obtain ⟨rest, -, rfl⟩ := Option.map_eq_some_iff.mp h
      exact List.mem_append_left _ (by simp)

theorem cut_nil : Cut k key ([] : List α) := by
  intro before a after h
  exact absurd (congrArg List.length h) (by simp)

/-- A list is cut where its first page ends and where what follows is. -/
theorem cut_page {before after : List α} {a : α} (hk : before.length + 1 = k ∨ after = []) (hle : before.length + 1 ≤ k) :
    Cut k key (before ++ a :: after) ↔
      ((∀ x ∈ before, key x ≤ key a) ∧ ∀ y ∈ after, key a < key y) ∧ Cut k key after := by
  constructor
  · intro h
    refine ⟨h before a after rfl (hk.imp (fun hlen => by rw [hlen, Nat.mod_self]) id), fun b a' t heq hend => ?_⟩
    have hfull : before.length + 1 = k := hk.resolve_right fun hnil => by simp [hnil] at heq
    have hshift : (before ++ a :: b).length + 1 = k + (b.length + 1) := by
      rw [List.length_append, List.length_cons]
      omega
    obtain ⟨hbefore, hafter⟩ := h (before ++ a :: b) a' t (by rw [heq, List.append_assoc, List.cons_append])
      (hend.imp_left fun hmod => by rw [hshift, Nat.add_mod_left, hmod])
    exact ⟨fun x hx => hbefore x (List.mem_append_right _ (List.mem_cons_of_mem _ hx)), hafter⟩
  · rintro ⟨⟨hbefore, hafter⟩, hrest⟩ b a' t heq hend
    rcases List.append_eq_append_iff.mp heq with ⟨u, rfl, hu⟩ | ⟨u, rfl, hu⟩
    · rcases u with _ | ⟨a'', u⟩
      · obtain ⟨rfl, rfl⟩ := List.cons.inj hu
        rw [List.append_nil]
        exact ⟨hbefore, hafter⟩
      · -- the end of a later page
        obtain ⟨rfl, rfl⟩ := List.cons.inj hu
        have hfull : before.length + 1 = k := hk.resolve_right (by simp)
        have hshift : (before ++ a :: u).length + 1 = k + (u.length + 1) := by
          rw [List.length_append, List.length_cons]
          omega
        obtain ⟨hbefore', hafter'⟩ := hrest u a' t rfl (hend.imp_left fun hmod => by
          rwa [hshift, Nat.add_mod_left] at hmod)
        have ha' : key a < key a' := hafter a' (by simp)
        refine ⟨fun x hx => ?_, hafter'⟩
        rcases List.mem_append.mp hx with hx | hx
        · exact le_trans (hbefore x hx) (le_of_lt ha')
        · rcases List.mem_cons.mp hx with rfl | hx
          · exact le_of_lt ha'
          · exact hbefore' x hx
    · rcases u with _ | ⟨a'', u⟩
      · obtain ⟨rfl, rfl⟩ := List.cons.inj hu
        rw [List.append_nil] at hbefore
        exact ⟨hbefore, hafter⟩
      · -- no page ends within the first
        obtain ⟨rfl, rfl⟩ := List.cons.inj hu
        rw [List.length_append, List.length_cons] at hle
        rcases hend with hmod | hnil
        · rw [Nat.mod_eq_of_lt (by omega)] at hmod
          omega
        · simp at hnil

/-- Reading page by page takes every element once just where the pages end as the keys go. -/
theorem pages_perm_iff (hk : 0 < k) (hl : l.Nodup) (h : pages k key fuel l = some out) : out.Perm l ↔ Cut k key l := by
  induction fuel generalizing l out with
  | zero => cases h
  | succ fuel ih =>
    unfold pages at h
    split at h
    · rename_i hnone
      cases h
      have hnil : l = [] := by
        rcases l with _ | ⟨x, l⟩
        · rfl
        · obtain ⟨k, rfl⟩ := Nat.exists_eq_succ_of_ne_zero (Nat.ne_of_gt hk)
          simp at hnone
      subst hnil
      exact iff_of_true (.refl _) cut_nil
    · rename_i a ha
      obtain ⟨rest, hrest, rfl⟩ := Option.map_eq_some_iff.mp h
      obtain ⟨before, htake, hsplit⟩ := take_of_getLast? ha
      generalize hafter : l.drop k = after at hsplit
      have hlen : before.length + 1 = min k l.length := by
        rw [← List.length_take, htake, List.length_append, List.length_singleton]
      have hend : before.length + 1 = k ∨ after = [] := by
        rcases Nat.le_total k l.length with hle | hle
        · exact .inl (by omega)
        · exact .inr (hafter ▸ List.drop_eq_nil_of_le hle)
      rw [htake]
      subst hsplit
      rw [cut_page hend (by omega)]
      have hnext : ((before ++ a :: after).filter fun x => key a < key x) =
          (before.filter fun x => key a < key x) ++ after.filter fun x => key a < key x := by
        rw [List.filter_append, List.filter_cons_of_neg (by simp)]
      rw [hnext] at hrest
      have hnodup : after.Nodup := (List.nodup_append.mp hl).2.1.of_cons
      have hperm : (before ++ [a] ++ rest).Perm (before ++ a :: after) ↔ rest.Perm after := by
        rw [List.append_assoc, List.singleton_append, List.perm_append_left_iff, List.perm_cons]
      rw [hperm]
      constructor
      · intro hp
        -- an element before would be read a second time
        have hbefore : ∀ x ∈ before, key x ≤ key a := by
          by_contra hlarge
          obtain ⟨x, hx, hlt⟩ : ∃ x ∈ before, key a < key x := by
            simpa only [not_forall, not_le, exists_prop] using hlarge
          have hne : (before.filter fun x => key a < key x) ≠ [] :=
            List.ne_nil_of_mem (List.mem_filter.mpr ⟨hx, decide_eq_true hlt⟩)
          obtain ⟨y, ys, hys⟩ := List.exists_cons_of_ne_nil hne
          rw [hys, List.cons_append] at hrest
          have hy : y ∈ before := List.mem_of_mem_filter (hys ▸ List.mem_cons_self)
          have hy' : y ∈ after := hp.mem_iff.mp (pages_head hk hrest)
          exact (List.nodup_append.mp hl).2.2 y hy y (List.mem_cons_of_mem _ hy') rfl
        have hnone : (before.filter fun x => key a < key x) = [] :=
          List.filter_eq_nil_iff.mpr fun x hx => by simpa using hbefore x hx
        rw [hnone, List.nil_append] at hrest
        have hlarger : ∀ y ∈ after, key a < key y := fun y hy => by
          simpa using (List.mem_filter.mp (pages_subset hrest y (hp.mem_iff.mpr hy))).2
        rw [List.filter_eq_self.mpr fun y hy => decide_eq_true (hlarger y hy)] at hrest
        exact ⟨⟨hbefore, hlarger⟩, (ih hnodup hrest).mp hp⟩
      · rintro ⟨⟨hbefore, hlarger⟩, hcut⟩
        have hnone : (before.filter fun x => key a < key x) = [] :=
          List.filter_eq_nil_iff.mpr fun x hx => by simpa using hbefore x hx
        rw [hnone, List.nil_append, List.filter_eq_self.mpr fun y hy => decide_eq_true (hlarger y hy)] at hrest
        exact (ih hnodup hrest).mpr hcut

end

end Paging
