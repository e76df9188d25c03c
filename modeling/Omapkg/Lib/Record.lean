import Omapkg.Lib.Json
/-!
# Records as JSON objects

A record is written as an object with a member for every field that is not
left out, and read by updating an old record member by member, so that a
repeated name counts last and an unknown one not at all. `record_reads` is
the round trip: the fields that were written are the fields that are read.
-/

namespace Record

open Json

variable {α ρ : Type}

/-- How a type is written, and read over an old value. -/
structure Codec (α : Type) where
  encode : α → Json String
  decode : Json String → α → Option α

/-- A field of a record. `encode` is `none` where the field is left out, and
`copy r t` is `t` with the field of `r`. -/
structure Slot (ρ : Type) where
  name : String
  encode : ρ → Option (Json String)
  decode : Json String → ρ → Option ρ
  copy : ρ → ρ → ρ

/-- A field that is always written. -/
def field (name : String) (codec : Codec α) (get : ρ → α) (set : α → ρ → ρ) : Slot ρ where
  name := name
  encode r := some (codec.encode (get r))
  decode v t := (codec.decode v (get t)).map fun a => set a t
  copy r t := set (get r) t

/-- A field that is left out where it is empty. -/
def omitted (isEmpty : α → Bool) (f : Slot ρ) (get : ρ → α) : Slot ρ :=
  { f with encode := fun r => if isEmpty (get r) then none else f.encode r }

/-! ## Members -/

def encodeMembers (fields : List (Slot ρ)) (r : ρ) : List (String × Json String) :=
  fields.filterMap fun f => (f.encode r).map fun v => (f.name, v)

section
variable (same : String → String → Bool) (fields : List (Slot ρ))

/-- Reads members into a record; `same` tells which field a name is. -/
def decodeMembers : List (String × Json String) → ρ → Option ρ
  | [], r => some r
  | (k, v) :: ms, r =>
    match fields.find? fun f => same f.name k with
    | none => decodeMembers ms r
    | some f => (f.decode v r).bind (decodeMembers ms)

/-- A record, which `null` leaves as it is. -/
def record : Codec ρ where
  encode r := .obj (encodeMembers fields r)
  decode
    | .obj ms, r => decodeMembers same fields ms r
    | .null, r => some r
    | _, _ => none

end

/-! ## The round trip -/

/-- What is written of the field in `r` is read over `t`. -/
def Slot.Reads (f : Slot ρ) (r t : ρ) : Prop :=
  match f.encode r with
  | some v => f.decode v t = some (f.copy r t)
  | none => f.copy r t = t

/-- Every field reads over the record that those before it leave. -/
def AllRead (r : ρ) : List (Slot ρ) → ρ → Prop
  | [], _ => True
  | f :: fs, t => f.Reads r t ∧ AllRead r fs (f.copy r t)

theorem allRead_append {r : ρ} (fs gs : List (Slot ρ)) (t : ρ) :
    AllRead r (fs ++ gs) t ↔ AllRead r fs t ∧ AllRead r gs (fs.foldl (fun t f => f.copy r t) t) := by
  induction fs generalizing t with
  | nil => simp [AllRead]
  | cons f fs ih => simp [AllRead, ih, and_assoc]

theorem field_reads {name : String} {codec : Codec α} {get : ρ → α} {set : α → ρ → ρ} {r t : ρ}
    (h : codec.decode (codec.encode (get r)) (get t) = some (get r)) : (field name codec get set).Reads r t := by
  simp only [Slot.Reads, field, h, Option.map_some]

theorem omitted_reads {isEmpty : α → Bool} {f : Slot ρ} {get : ρ → α} {r t : ρ}
    (h : f.Reads r t) (he : isEmpty (get r) = true → f.copy r t = t) : (omitted isEmpty f get).Reads r t := by
  unfold Slot.Reads omitted
  by_cases hr : isEmpty (get r) = true
  · simp only [hr, if_true]
    exact he hr
  · simp only [hr]
    exact h

section
variable {same : String → String → Bool} {fields : List (Slot ρ)}

/-- Every name is that of one field only. -/
def Distinct (same : String → String → Bool) (names : List String) : Prop :=
  (∀ name ∈ names, same name name = true) ∧ names.Pairwise fun a b => same a b = false

instance (same : String → String → Bool) : DecidablePred (Distinct same) := fun _ => inferInstanceAs (Decidable (_ ∧ _))

theorem find_of_distinct (h : Distinct same (fields.map Slot.name)) :
    ∀ f ∈ fields, fields.find? (fun g => same g.name f.name) = some f := by
  intro f hf
  obtain ⟨before, after, rfl⟩ := List.append_of_mem hf
  obtain ⟨hrefl, hpair⟩ := h
  have hbefore : ∀ g ∈ before, ¬same g.name f.name = true := by
    intro g hg
    rw [List.map_append, List.map_cons, List.pairwise_append] at hpair
    simp [hpair.2.2 g.name (List.mem_map_of_mem hg) f.name List.mem_cons_self]
  rw [List.find?_append, List.find?_eq_none.mpr hbefore, Option.none_or, List.find?_cons_of_pos]
  exact hrefl f.name (List.mem_map_of_mem (by simp))

theorem decodeMembers_encodeMembers {r : ρ} (hsame : Distinct same (fields.map Slot.name))
    {fs : List (Slot ρ)} (hfs : ∀ f ∈ fs, f ∈ fields) {t : ρ} (h : AllRead r fs t) :
    decodeMembers same fields (encodeMembers fs r) t = some (fs.foldl (fun t f => f.copy r t) t) := by
  induction fs generalizing t with
  | nil => rfl
  | cons f fs ih =>
    obtain ⟨hf, hrest⟩ := h
    have ih := ih (fun g hg => hfs g (List.mem_cons_of_mem _ hg)) hrest
    have hfind := find_of_distinct hsame f (hfs f List.mem_cons_self)
    unfold Slot.Reads at hf
    rw [encodeMembers, List.filterMap_cons]
    split at hf
    · rename_i v hv
      simp only [hv, Option.map_some, decodeMembers, hfind, hf, Option.bind_some]
      exact ih
    · rename_i hv
      simp only [hv, Option.map_none, List.foldl_cons]
      rw [hf] at ih ⊢
      exact ih

/-- A record is read as it was written, over any record of which the fields
left out are empty. -/
theorem record_reads {r t : ρ} (hsame : Distinct same (fields.map Slot.name))
    (h : AllRead r fields t) (hcopy : fields.foldl (fun t f => f.copy r t) t = r) :
    (record same fields).decode ((record same fields).encode r) t = some r := by
  simp only [record]
  rw [decodeMembers_encodeMembers hsame (fun f hf => hf) h, hcopy]

end

/-! ## What reading keeps -/

section
variable {same : String → String → Bool} {fields : List (Slot ρ)} {P : ρ → Prop}

/-- A field that keeps `P`, whatever is read for it. -/
def Slot.Keeps (f : Slot ρ) (P : ρ → Prop) : Prop := ∀ v t t', f.decode v t = some t' → P t → P t'

theorem field_keeps {name : String} {codec : Codec α} {get : ρ → α} {set : α → ρ → ρ}
    (h : ∀ v t a, codec.decode v (get t) = some a → P t → P (set a t)) : (field name codec get set).Keeps P := by
  intro v t t' hd ht
  obtain ⟨a, ha, rfl⟩ := Option.map_eq_some_iff.mp hd
  exact h v t a ha ht

theorem omitted_keeps {isEmpty : α → Bool} {f : Slot ρ} {get : ρ → α} (h : f.Keeps P) :
    (omitted isEmpty f get).Keeps P := h

theorem record_keeps (h : ∀ f ∈ fields, f.Keeps P) {v : Json String} {t t' : ρ}
    (hd : (record same fields).decode v t = some t') (ht : P t) : P t' := by
  have hmembers : ∀ (ms : List (String × Json String)) (t : ρ), decodeMembers same fields ms t = some t' → P t → P t' := by
    intro ms
    induction ms with
    | nil =>
      intro t hd ht
      rwa [← Option.some.inj hd]
    | cons m ms ih =>
      intro t hd ht
      rw [decodeMembers] at hd
      split at hd
      · exact ih t hd ht
      · rename_i f hf
        obtain ⟨u, hu, hd⟩ := Option.bind_eq_some_iff.mp hd
        exact ih u hd (h f (List.mem_of_find?_eq_some hf) _ t u hu ht)
  cases v with
  | obj ms => exact hmembers ms t hd ht
  | null => rwa [← Option.some.inj hd]
  | _ => cases hd

theorem record_depth {r : ρ} {d : Nat} (h : ∀ f ∈ fields, ∀ v, f.encode r = some v → v.depth ≤ d) :
    ((record same fields).encode r).depth ≤ d + 1 := by
  have hm : depthMembers (encodeMembers fields r) ≤ d := by
    rw [depthMembers_le_iff]
    intro m hm
    obtain ⟨f, hf, he⟩ := List.mem_filterMap.mp hm
    obtain ⟨v, hv, rfl⟩ := Option.map_eq_some_iff.mp he
    exact h f hf v hv
  exact Nat.succ_le_succ hm

end

end Record
