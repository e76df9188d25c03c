import Mathlib.Data.List.Basic
import Mathlib.Data.List.TakeWhile
import Mathlib.Tactic.Common
/-!
# Files of named fields

A text of lines: a field is a line that names it between two marks, a line for
each of its values, and an empty line. Nothing is escaped, so a value is read
back when it is one line that is not empty.
-/

namespace FieldFile

variable {α : Type*} [DecidableEq α] {nl mark : α}

structure Entry (α : Type*) where
  name : List α
  values : List (List α)
  deriving DecidableEq

/-! ## Lines -/

def joinLines (nl : α) (ls : List (List α)) : List α := ls.flatMap (· ++ [nl])

/-- The lines of a text, when the last one ends. -/
def lines (nl : α) : List α → Option (List (List α))
  | [] => some []
  | c :: cs =>
    if c = nl then (lines nl cs).map ([] :: ·)
    else
      match lines nl cs with
      | some (l :: ls) => some ((c :: l) :: ls)
      | _ => none

theorem lines_append {l : List α} (h : nl ∉ l) {text : List α} {ls : List (List α)} (htext : lines nl text = some ls) :
    lines nl (l ++ nl :: text) = some (l :: ls) := by
  induction l with
  | nil => simp [lines, htext]
  | cons c l ih =>
    rw [List.mem_cons, not_or] at h
    rw [List.cons_append, lines, if_neg (Ne.symm h.1), ih h.2]

theorem lines_joinLines {ls : List (List α)} (h : ∀ l ∈ ls, nl ∉ l) : lines nl (joinLines nl ls) = some ls := by
  induction ls with
  | nil => rfl
  | cons l ls ih =>
    rw [List.forall_mem_cons] at h
    rw [joinLines, List.flatMap_cons, List.append_assoc]
    exact lines_append h.1 (ih h.2)

/-- A line has no end inside. -/
theorem lines_free {text : List α} {ls : List (List α)} (h : lines nl text = some ls) : ∀ l ∈ ls, nl ∉ l := by
  induction text generalizing ls with
  | nil =>
    cases h
    simp
  | cons c cs ih =>
    rw [lines] at h
    split at h
    · obtain ⟨ls', hls', rfl⟩ := Option.map_eq_some_iff.mp h
      exact List.forall_mem_cons.mpr ⟨List.not_mem_nil, ih hls'⟩
    · next hc =>
      split at h
      · next l ls' hls' =>
        cases h
        obtain ⟨hl, hrest⟩ := List.forall_mem_cons.mp (ih hls')
        exact List.forall_mem_cons.mpr ⟨by simp [Ne.symm hc, hl], hrest⟩
      · cases h

/-! ## Entries -/

def header (mark : α) (name : List α) : List α := mark :: (name ++ [mark])

def fieldLines (mark : α) (f : Entry α) : List (List α) := header mark f.name :: (f.values ++ [[]])

def readHeader (mark : α) : List α → Option (List α)
  | [] => none
  | c :: cs => if c = mark ∧ cs.getLast? = some mark then some cs.dropLast else none

/-- The entries of lines, as many as `fuel` bounds. -/
def readFields (mark : α) : Nat → List (List α) → Option (List (Entry α))
  | _, [] => some []
  | 0, _ => none
  | fuel + 1, l :: ls =>
    match readHeader mark l, ls.dropWhile (· ≠ []) with
    | some name, _ :: rest => (readFields mark fuel rest).map (⟨name, ls.takeWhile (· ≠ [])⟩ :: ·)
    | _, _ => none

def parse (nl mark : α) (text : List α) : Option (List (Entry α)) :=
  (lines nl text).bind fun ls => readFields mark ls.length ls

theorem readHeader_header (mark : α) (name : List α) : readHeader mark (header mark name) = some name := by
  simp [readHeader, header]

theorem readFields_fieldLines {fs : List (Entry α)} (h : ∀ f ∈ fs, [] ∉ f.values) {fuel : Nat} (hfuel : fs.length ≤ fuel) :
    readFields mark fuel (fs.flatMap (fieldLines mark)) = some fs := by
  induction fs generalizing fuel with
  | nil => simp [readFields]
  | cons f fs ih =>
    rw [List.forall_mem_cons] at h
    obtain ⟨fuel, rfl⟩ : ∃ k, fuel = k + 1 := ⟨fuel - 1, by rw [List.length_cons] at hfuel; omega⟩
    have hvalues : ∀ v ∈ f.values, decide (v ≠ []) = true := fun v hv => decide_eq_true fun he => h.1 (he ▸ hv)
    have htake : (f.values ++ ([] :: fs.flatMap (fieldLines mark))).takeWhile (· ≠ []) = f.values := by
      rw [List.takeWhile_append_of_pos hvalues, List.takeWhile_cons_of_neg (by simp), List.append_nil]
    have hdrop : (f.values ++ ([] :: fs.flatMap (fieldLines mark))).dropWhile (· ≠ []) = [] :: fs.flatMap (fieldLines mark) := by
      rw [List.dropWhile_append_of_pos hvalues, List.dropWhile_cons_of_neg (by simp)]
    rw [List.flatMap_cons, fieldLines, List.cons_append, List.append_assoc, List.singleton_append, readFields,
      readHeader_header, hdrop, htake]
    simp only
    rw [ih h.2 (by simpa using hfuel)]
    rfl

theorem readFields_values {fuel : Nat} {ls : List (List α)} {fs : List (Entry α)} (h : readFields mark fuel ls = some fs) :
    ∀ f ∈ fs, ∀ v ∈ f.values, v ∈ ls := by
  induction fuel generalizing ls fs with
  | zero =>
    cases ls with
    | nil =>
      cases h
      simp
    | cons l ls => cases h
  | succ fuel ih =>
    cases ls with
    | nil =>
      cases h
      simp
    | cons l ls =>
      rw [readFields] at h
      split at h
      · next name blank rest _ hdrop =>
        obtain ⟨fs', hfs', rfl⟩ := Option.map_eq_some_iff.mp h
        refine List.forall_mem_cons.mpr ⟨fun v hv => ?_, fun f hf v hv => ?_⟩
        · exact List.mem_cons_of_mem _ (List.takeWhile_subset _ hv)
        · have hrest : v ∈ ls.dropWhile (· ≠ []) := hdrop ▸ List.mem_cons_of_mem _ (ih hfs' f hf v hv)
          exact List.mem_cons_of_mem _ ((List.dropWhile_sublist _).subset hrest)
      · cases h

/-- What is read as a value is on one line. -/
theorem parse_values {text : List α} {fs : List (Entry α)} (h : parse nl mark text = some fs) :
    ∀ f ∈ fs, ∀ v ∈ f.values, nl ∉ v := by
  obtain ⟨ls, hls, hfs⟩ := Option.bind_eq_some_iff.mp h
  intro f hf v hv
  exact lines_free hls v (readFields_values hfs f hf v hv)

/-- Fields whose values are lines are read back. -/
theorem parse_joinLines (hmark : mark ≠ nl) {fs : List (Entry α)}
    (h : ∀ f ∈ fs, nl ∉ f.name ∧ ∀ v ∈ f.values, v ≠ [] ∧ nl ∉ v) :
    parse nl mark (joinLines nl (fs.flatMap (fieldLines mark))) = some fs := by
  have hlines : ∀ l ∈ fs.flatMap (fieldLines mark), nl ∉ l := by
    intro l hl
    obtain ⟨f, hf, hl⟩ := List.mem_flatMap.mp hl
    obtain ⟨hname, hvalues⟩ := h f hf
    rcases List.mem_cons.mp hl with rfl | hl
    · simp [header, hname, Ne.symm hmark]
    · rcases List.mem_append.mp hl with hl | hl
      · exact (hvalues l hl).2
      · rw [List.mem_singleton.mp hl]
        exact List.not_mem_nil
  have hlength : fs.length ≤ (fs.flatMap (fieldLines mark)).length := by
    clear h hlines
    induction fs with
    | nil => exact Nat.zero_le _
    | cons f fs ih =>
      rw [List.flatMap_cons, List.length_append, fieldLines, List.length_cons, List.length_cons]
      omega
  rw [parse, lines_joinLines hlines, Option.bind_some]
  exact readFields_fieldLines (fun f hf hnil => ((h f hf).2 [] hnil).1 rfl) hlength

end FieldFile
