import Mathlib.Data.List.Infix
import Mathlib.Data.List.TakeDrop
import Omapkg.Lib.Fallible
import Omapkg.Server.Arch
import Omapkg.Worker.PackageMetadata
/-!
# Relations of both sides

The grammar of package relations, which the worker's scanner and the server's
patterns write twice. `relation_agrees` says that the two are one but for a
prefixed soname, where the worker asks for `.so` anywhere behind the colon and
the server for `.so` before a dot or the end.
-/

namespace Omapkg.Wire

open Json Utf Omapkg.Server
open Omapkg.Server.Arch (Operator isWord isLowerAlnum isNameChar isRelationChar isVersionChar isSonameChar
  isSonameTailChar isDigits isPackageName isVersionText isSonameV1 isSoname afterColon startsSo hasSo
  parseArchPackageVersion parseArchDependency parseLegacySoname parsePrefixedSoname parseArchRelation isRelation
  hasSpace)
open Omapkg.Worker (isOperatorChar parsePackageVersion parsePackageRelation containsSo)

/-! ## Characters -/

/-- A visible ASCII character. -/
def Graphic (c : Char) : Prop := 0x20 < c.toNat ∧ c.toNat < 0x7F

instance : DecidablePred Graphic := fun _ => inferInstanceAs (Decidable (_ ∧ _))

theorem graphic_alnum {c : Char} (h : isAlnum c = true) : Graphic c := by
  simp only [isAlnum, Bool.or_eq_true, Bool.and_eq_true, decide_eq_true_eq] at h
  have hrange : (65 ≤ c.toNat ∧ c.toNat ≤ 90) ∨ (97 ≤ c.toNat ∧ c.toNat ≤ 122) ∨ (48 ≤ c.toNat ∧ c.toNat ≤ 57) := by
    rcases h with (h | h) | h
    · exact .inl h
    · exact .inr (.inl h)
    · exact .inr (.inr h)
  unfold Graphic
  omega

theorem graphic_all {cs : List Char} (h : (cs.all fun c => decide (Graphic c)) = true) : ∀ c ∈ cs, Graphic c :=
  fun c hc => of_decide_eq_true (List.all_eq_true.mp h c hc)

/-- A class of the letters, the digits and a few visible characters. -/
theorem graphic_class {c : Char} (extra : List Char) (hextra : (extra.all fun d => decide (Graphic d)) = true)
    (h : (isAlnum c || extra.contains c) = true) : Graphic c := by
  rcases Bool.or_eq_true_iff.mp h with h | h
  · exact graphic_alnum h
  · exact graphic_all hextra c (List.contains_iff_mem.mp h)

theorem graphic_version {c : Char} (h : isVersionChar c = true) : Graphic c := graphic_class _ (by decide) h

theorem not_operator_class {c : Char} (extra : List Char) (hextra : (extra.all fun d => !isOperatorChar d) = true)
    (h : (isAlnum c || extra.contains c) = true) : isOperatorChar c = false := by
  rcases Bool.or_eq_true_iff.mp h with h | h
  · by_contra hop
    simp only [isOperatorChar, Bool.not_eq_false, Bool.or_eq_true, decide_eq_true_eq] at hop
    rcases hop with (rfl | rfl) | rfl <;> exact absurd h (by decide)
  · have hc := List.all_eq_true.mp hextra c (List.contains_iff_mem.mp h)
    simpa using hc

theorem not_operator_version {c : Char} (h : isVersionChar c = true) : isOperatorChar c = false :=
  not_operator_class _ (by decide) h

theorem not_operator_relation {c : Char} (h : isRelationChar c = true) : isOperatorChar c = false :=
  not_operator_class _ (by decide) h

/-! ## Words -/

theorem span_append {p : Char → Bool} {xs ys : List Char} (h : ∀ c ∈ xs, p c = true)
    (hy : ∀ c, ys.head? = some c → p c = false) : (xs ++ ys).span p = (xs, ys) := by
  induction xs with
  | nil =>
    cases ys with
    | nil => rfl
    | cons c ys => simp [List.span_eq_takeWhile_dropWhile, hy c rfl]
  | cons x xs ih =>
    have hx := h x List.mem_cons_self
    have hrest := ih fun c hc => h c (List.mem_cons_of_mem _ hc)
    simp only [List.span_eq_takeWhile_dropWhile, Prod.mk.injEq] at hrest ⊢
    simp only [List.cons_append, List.takeWhile_cons, List.dropWhile_cons, hx, if_true, hrest, and_self]

theorem word_all {first next : Char → Bool} {n : Nat} {s : List Char} {P : Char → Prop}
    (hs : isWord first next n s = true) (hfirst : ∀ c, first c = true → P c) (hnext : ∀ c, next c = true → P c) :
    ∀ c ∈ s, P c := by
  cases s with
  | nil => intro c hc; cases hc
  | cons a s =>
    simp only [isWord, Bool.and_eq_true, List.all_eq_true] at hs
    intro c hc
    rcases List.mem_cons.mp hc with rfl | hc
    · exact hfirst _ hs.1.1
    · exact hnext c (hs.1.2 c hc)

/-- The characters of a soname, its colon aside. -/
theorem sonameV1_all {s : List Char} (h : isSonameV1 s = true) : ∀ c ∈ s, isSonameChar c = true := by
  unfold isSonameV1 at h
  split at h
  · rename_i r hr
    have hs : s = r.reverse ++ ['.', 's', 'o'] := by
      rw [← List.reverse_reverse s, hr]
      simp
    have hword := word_all (P := fun c => isSonameChar c = true) h
      (fun c hc => by simp [isSonameChar, hc]) (fun c hc => hc)
    intro c hc
    rw [hs] at hc
    rcases List.mem_append.mp hc with hc | hc
    · exact hword c hc
    · simp only [List.mem_cons, List.not_mem_nil, or_false] at hc
      rcases hc with rfl | rfl | rfl <;> decide
  · exact absurd h (by decide)

theorem soname_all {s : List Char} (h : isSoname s = true) :
    ':' ∈ s ∧ ∀ c ∈ s, isSonameChar c = true ∨ isSonameTailChar c = true ∨ c = ':' := by
  unfold isSoname at h
  split at h
  · rename_i before colon after hspan
    simp only [Bool.and_eq_true] at h
    have hs : s = before ++ colon :: after := by
      have := List.takeWhile_append_dropWhile (p := fun c => decide (c ≠ ':')) (l := s)
      rw [List.span_eq_takeWhile_dropWhile, Prod.mk.injEq] at hspan
      rw [← this, hspan.1, hspan.2]
    have hcolon : colon = ':' := by
      rw [List.span_eq_takeWhile_dropWhile, Prod.mk.injEq] at hspan
      have hhead := List.head?_dropWhile_not (fun c => decide (c ≠ ':')) s
      rw [hspan.2] at hhead
      simpa using hhead
    have hbefore := word_all (P := fun c => isSonameChar c = true) h.1
      (fun c hc => by simp [isSonameChar, hc]) (fun c hc => hc)
    have hafter := word_all (P := fun c => isSonameTailChar c = true) h.2
      (fun c hc => by simp [isSonameTailChar, hc]) (fun c hc => hc)
    subst hs hcolon
    refine ⟨by simp, fun c hc => ?_⟩
    rcases List.mem_append.mp hc with hc | hc
    · exact .inl (hbefore c hc)
    · rcases List.mem_cons.mp hc with rfl | hc
      · exact .inr (.inr rfl)
      · exact .inr (.inl (hafter c hc))
  · exact absurd h (by decide)

theorem version_all {s : List Char} (h : isVersionText s = true) : ∀ c ∈ s, isVersionChar c = true := by
  have hword : ∀ {s}, isWord isAlnum isVersionChar 127 s = true → ∀ c ∈ s, isVersionChar c = true := fun hw =>
    word_all hw (fun c hc => by simp [isVersionChar, hc]) (fun c hc => hc)
  unfold isVersionText at h
  rcases Bool.or_eq_true_iff.mp h with h | h
  · exact hword h
  · split at h
    · rename_i d ds rest hspan
      rw [List.span_eq_takeWhile_dropWhile, Prod.mk.injEq] at hspan
      intro c hc
      rw [← List.takeWhile_append_dropWhile (p := Char.isDigit) (l := s)] at hc
      rcases List.mem_append.mp hc with hc | hc
      · have hdigit : c.isDigit = true := List.mem_takeWhile_imp hc
        have halnum : isAlnum c = true := by
          simp only [Char.isDigit, Bool.and_eq_true, decide_eq_true_eq] at hdigit
          simp only [isAlnum, Bool.or_eq_true, Bool.and_eq_true, decide_eq_true_eq]
          exact .inr hdigit
        simp [isVersionChar, halnum]
      · rw [hspan.2] at hc
        rcases List.mem_cons.mp hc with rfl | hc
        · decide
        · exact hword h c hc
    · exact absurd h (by decide)

/-! ## Versions -/

theorem not_mem_of_span {s before : List Char} {d : Char} (h : s.span (fun c => decide (c ≠ d)) = (before, [])) :
    d ∉ s ∧ before = s := by
  rw [List.span_eq_takeWhile_dropWhile, Prod.mk.injEq] at h
  have hs := List.takeWhile_append_dropWhile (p := fun c => decide (c ≠ d)) (l := s)
  rw [h.1, h.2, List.append_nil] at hs
  subst hs
  refine ⟨fun hd => ?_, rfl⟩
  have := List.mem_takeWhile_imp (h.1 ▸ hd)
  simp at this

/-- The two checks of a version are one. -/
theorem parsePackageVersion_eq (value : List Char) :
    parsePackageVersion value = (parseArchPackageVersion value).isSome := by
  unfold parsePackageVersion parseArchPackageVersion
  by_cases htext : isVersionText value = false
  · simp [htext]
  · have hne : value ≠ [] := by
      rintro rfl
      exact htext (by decide)
    rw [if_neg htext, if_neg htext, Arch.splitEpoch]
    rcases hspan : value.span (fun c => decide (c ≠ ':')) with ⟨epoch, _ | ⟨colon, rest⟩⟩
    · obtain ⟨hcolon, -⟩ := not_mem_of_span hspan
      have hzero : isDigits ['0'] = true := by decide
      simp only [hzero, hne, hcolon, Bool.true_eq_false, or_self, if_false]
      split
      · split <;> rfl
      · rfl
    · dsimp only
      by_cases hok : isDigits epoch = false ∨ rest = [] ∨ ':' ∈ rest
      · rw [if_pos hok]
        simp only [isDigits, Bool.and_eq_false_iff, decide_eq_false_iff_not, not_not] at hok
        rcases hok with (rfl | hok) | rfl | hok
        · simp
        · simp [hok]
        · simp
        · simp [hok]
      · rw [if_neg hok]
        refine Eq.trans (b := true) ?_ ?_
        swap
        · split
          · split <;> rfl
          · rfl
        simp only [not_or, Bool.not_eq_false, isDigits, Bool.and_eq_true, decide_eq_true_eq] at hok
        obtain ⟨⟨hepoch, hdigits⟩, hrest, hcolon⟩ := hok
        simp [hepoch, hdigits, hrest, hcolon]

theorem version_valid {v : List Char} (h : parsePackageVersion v = true) : isVersionText v = true := by
  unfold parsePackageVersion at h
  by_contra hne
  simp [hne] at h

/-! ## Comparisons -/

/-- The part of a relation behind its name: nothing, or an operator and a valid version. -/
inductive Compares : List Char → Option (List Char) → Prop where
  | nothing : Compares [] none
  | operator {rest operator version : List Char} (hr : Worker.takeOperator rest = some (operator, version))
      (hv : parsePackageVersion version = true) : Compares rest (some operator)

/-- The spelling of an operator. -/
def spelled : Operator → List Char
  | .ge => ['>', '=']
  | .le => ['<', '=']
  | .eq => ['=']
  | .gt => ['>']
  | .lt => ['<']

theorem spelled_eq (op : Operator) : spelled op = ['='] ↔ op = .eq := by
  cases op <;> decide

/-- The two readers of an operator agree before a valid version. -/
theorem takeOperator_agrees {rest version : List Char} (hhead : ∀ c, rest.head? = some c → isOperatorChar c = true)
    (hv : parsePackageVersion version = true) (operator : List Char) :
    Worker.takeOperator rest = some (operator, version) ↔
      ∃ op, Arch.takeOperator rest = some (op, version) ∧ spelled op = operator := by
  have hne : version ≠ [] := by
    rintro rfl
    exact absurd hv (by decide)
  have heq : version ≠ ['='] := by
    rintro rfl
    exact absurd hv (by decide)
  rcases rest with _ | ⟨c, r⟩
  · simp [Worker.takeOperator, Arch.takeOperator]
  have hc := hhead c rfl
  simp only [isOperatorChar, Bool.or_eq_true, decide_eq_true_eq] at hc
  rcases r with _ | ⟨d, r⟩
  · -- no version follows
    rcases hc with (rfl | rfl) | rfl <;> simp [Worker.takeOperator, Arch.takeOperator, hne.symm]
  by_cases hd : d = '='
  · subst hd
    rcases r with _ | ⟨e, r⟩
    · rcases hc with (rfl | rfl) | rfl <;>
        simp [Worker.takeOperator, Arch.takeOperator, hne.symm, heq.symm]
    · rcases hc with (rfl | rfl) | rfl <;>
        simp [Worker.takeOperator, Arch.takeOperator, spelled, and_comm, and_assoc]
  · rcases hc with (rfl | rfl) | rfl <;>
      simp [Worker.takeOperator, Arch.takeOperator, spelled, hd, and_comm, and_assoc]

theorem compares_unique {rest : List Char} {o o' : Option (List Char)} (h : Compares rest o) (h' : Compares rest o') :
    o = o' := by
  cases h with
  | nothing =>
    cases h' with
    | nothing => rfl
    | operator hr _ => cases hr
  | operator hr _ =>
    cases h' with
    | nothing => cases hr
    | operator hr' _ => rw [(Prod.mk.inj (Option.some.inj (hr.symm.trans hr'))).1]

/-- Everything behind a name is visible. -/
theorem compares_graphic {rest : List Char} {o : Option (List Char)} (h : Compares rest o)
    (hhead : ∀ c, rest.head? = some c → isOperatorChar c = true) : ∀ c ∈ rest, Graphic c := by
  cases h with
  | nothing => intro c hc; cases hc
  | @operator _ operator version hr hv =>
    have hversion : ∀ c ∈ version, Graphic c := fun c hc => graphic_version (version_all (version_valid hv) c hc)
    have hsplit : rest = operator ++ version ∧ ∀ c ∈ operator, Graphic c := by
      unfold Worker.takeOperator at hr
      split at hr
      · cases hr
      · cases hr
        exact ⟨rfl, graphic_all (by decide)⟩
      · cases hr
        exact ⟨rfl, graphic_all (by decide)⟩
      · rename_i c r _ _
        cases hr
        refine ⟨rfl, fun d hd => ?_⟩
        rw [List.mem_singleton] at hd
        have hop := hhead c rfl
        simp only [isOperatorChar, Bool.or_eq_true, decide_eq_true_eq] at hop
        subst hd
        rcases hop with (rfl | rfl) | rfl <;> decide
    intro c hc
    rw [hsplit.1] at hc
    rcases List.mem_append.mp hc with hc | hc
    · exact hsplit.2 c hc
    · exact hversion c hc

/-! ## The two grammars -/

/-- A relation as its name, up to the first operator, and the rest. -/
structure Divides (value name rest : List Char) : Prop where
  eq : value = name ++ rest
  name : ∀ c ∈ name, isOperatorChar c = false
  rest : ∀ c, rest.head? = some c → isOperatorChar c = true

theorem divides_exists (value : List Char) : ∃ name rest, Divides value name rest ∧
    value.span (fun c => !isOperatorChar c) = (name, rest) := by
  refine ⟨_, _, ⟨(List.takeWhile_append_dropWhile (p := fun c => !isOperatorChar c) (l := value)).symm, ?_, ?_⟩,
    List.span_eq_takeWhile_dropWhile _ _⟩
  · intro c hc
    simpa using List.mem_takeWhile_imp hc
  · intro c hc
    have := List.head?_dropWhile_not (fun c => !isOperatorChar c) value
    rw [hc] at this
    simpa using this

theorem Divides.unique {value name rest name' rest' : List Char} (h : Divides value name rest)
    (h' : Divides value name' rest') :
    name = name' ∧ rest = rest' := by
  have hspan := span_append (p := fun c => !isOperatorChar c) (fun c hc => by rw [h.name c hc]; rfl)
    fun c hc => by rw [h.rest c hc]; rfl
  have hspan' := span_append (p := fun c => !isOperatorChar c) (fun c hc => by rw [h'.name c hc]; rfl)
    fun c hc => by rw [h'.rest c hc]; rfl
  rw [← h.eq] at hspan
  rw [← h'.eq, hspan] at hspan'
  exact Prod.mk.inj hspan'

theorem word_not_operator {name : List Char} (h : isWord isAlnum isRelationChar 63 name = true) :
    ∀ c ∈ name, isRelationChar c = true :=
  word_all h (fun c hc => by simp [isRelationChar, hc]) fun _ hc => hc

theorem sonameV1_not_operator {name : List Char} (h : isSonameV1 name = true) : ∀ c ∈ name, isOperatorChar c = false :=
  fun c hc => not_operator_class "._+~-".toList (by decide) (sonameV1_all h c hc)

theorem soname_not_operator {name : List Char} (h : isSoname name = true) : ∀ c ∈ name, isOperatorChar c = false := by
  intro c hc
  rcases (soname_all h).2 c hc with hc | hc | rfl
  · exact not_operator_class "._+~-".toList (by decide) hc
  · exact not_operator_class "._+~^-".toList (by decide) hc
  · decide

theorem compares_nil {o : Option (List Char)} : Compares [] o ↔ o = none := by
  constructor
  · intro h
    cases h with
    | nothing => rfl
    | operator hr _ => cases hr
  · rintro rfl
    exact .nothing

theorem head_of_takeOperator {rest version : List Char} {op : Operator}
    (h : Arch.takeOperator rest = some (op, version)) :
    ∀ c, rest.head? = some c → isOperatorChar c = true := by
  intro c hc
  unfold Arch.takeOperator at h
  split at h <;> cases h <;> cases hc <;> decide

section
variable {value name rest : List Char} (hs : Divides value name rest)
include hs

theorem dependency_iff (hspace : hasSpace (String.ofList value) = false) (o : Option (List Char)) :
    (∃ d, parseArchDependency (String.ofList value) = some d ∧ d.operator.map spelled = o) ↔
      isWord isAlnum isRelationChar 63 name = true ∧ Compares rest o := by
  unfold parseArchDependency
  rw [hspace, if_neg (by decide), String.toList_ofList]
  dsimp only
  constructor
  · rintro ⟨d, hd, rfl⟩
    rcases hspan : value.span isRelationChar with ⟨name', rest'⟩
    rw [hspan] at hd
    dsimp only at hd
    have heq : value = name' ++ rest' := by
      rw [List.span_eq_takeWhile_dropWhile, Prod.mk.injEq] at hspan
      rw [← hspan.1, ← hspan.2, List.takeWhile_append_dropWhile]
    split at hd
    · cases hd
    rename_i hword
    rw [Bool.not_eq_false] at hword
    have hname : ∀ c ∈ name', isOperatorChar c = false := fun c hc =>
      not_operator_relation (word_not_operator hword c hc)
    split at hd
    · rename_i hnil
      subst hnil
      obtain ⟨rfl, rfl⟩ := hs.unique ⟨heq, hname, by simp⟩
      cases hd
      exact ⟨hword, .nothing⟩
    · split at hd
      · rename_i op version htake
        obtain ⟨rfl, rfl⟩ := hs.unique ⟨heq, hname, head_of_takeOperator htake⟩
        split at hd
        · rename_i hv
          rw [← parsePackageVersion_eq] at hv
          cases hd
          exact ⟨hword, .operator ((takeOperator_agrees hs.rest hv _).mpr ⟨op, htake, rfl⟩) hv⟩
        · cases hd
      · cases hd
  · rintro ⟨hword, hrest⟩
    have hspan : value.span isRelationChar = (name, rest) := by
      rw [hs.eq]
      refine span_append (word_not_operator hword) fun c hc => ?_
      by_contra hne
      have := not_operator_relation (Bool.not_eq_false _ ▸ hne)
      rw [hs.rest c hc] at this
      cases this
    rw [hspan]
    dsimp only
    rw [if_neg (by rw [hword]; decide)]
    cases hrest with
    | nothing => exact ⟨_, if_pos rfl, rfl⟩
    | @operator _ operator version hr hv =>
      obtain ⟨op, htake, hop⟩ := (takeOperator_agrees hs.rest hv operator).mp hr
      have hne : rest ≠ [] := by
        rintro rfl
        cases hr
      rw [if_neg hne, htake]
      dsimp only
      rw [← parsePackageVersion_eq, hv]
      exact ⟨_, rfl, congrArg some hop⟩

theorem legacy_iff (o : Option (List Char)) :
    (∃ d, parseLegacySoname (String.ofList value) = some d ∧ d.operator.map spelled = o) ↔
      isSonameV1 name = true ∧ Compares rest o ∧ (o = none ∨ o = some ['=']) := by
  unfold parseLegacySoname
  rw [String.toList_ofList]
  constructor
  · rintro ⟨d, hd, rfl⟩
    rcases hspan : value.span (fun c => decide (c ≠ '=')) with ⟨name', _ | ⟨e, version⟩⟩
    · rw [hspan] at hd
      dsimp only at hd
      split at hd
      · rename_i hv1
        obtain ⟨-, rfl⟩ := not_mem_of_span hspan
        obtain ⟨rfl, rfl⟩ := hs.unique ⟨(List.append_nil _).symm, sonameV1_not_operator hv1, by simp⟩
        cases hd
        exact ⟨hv1, .nothing, .inl rfl⟩
      · cases hd
    · rw [hspan] at hd
      dsimp only at hd
      rw [List.span_eq_takeWhile_dropWhile, Prod.mk.injEq] at hspan
      have heq : value = name' ++ e :: version := by
        rw [← hspan.1, ← hspan.2, List.takeWhile_append_dropWhile]
      have he : e = '=' := by
        have hhead := List.head?_dropWhile_not (fun c => decide (c ≠ '=')) value
        rw [hspan.2] at hhead
        simpa using hhead
      subst he
      split at hd
      · rename_i hv1
        rw [Bool.and_eq_true, ← parsePackageVersion_eq] at hv1
        obtain ⟨rfl, rfl⟩ := hs.unique ⟨heq, sonameV1_not_operator hv1.1, by simp [isOperatorChar]⟩
        cases hd
        exact ⟨hv1.1, .operator rfl hv1.2, .inr rfl⟩
      · cases hd
  · rintro ⟨hv1, hrest, ho⟩
    have hname : ∀ c ∈ name, decide (c ≠ '=') = true := by
      intro c hc
      have hop := sonameV1_not_operator hv1 c hc
      simp only [isOperatorChar, Bool.or_eq_false_iff, decide_eq_false_iff_not] at hop
      simpa using hop.2
    cases hrest with
    | nothing =>
      rw [hs.eq, span_append hname (by simp)]
      exact ⟨_, if_pos hv1, rfl⟩
    | @operator _ operator version hr hv =>
      have hop : operator = ['='] := by simpa using ho
      subst hop
      have hrest : rest = '=' :: version := by
        unfold Worker.takeOperator at hr
        split at hr <;> cases hr
        rfl
      subst hrest
      rw [hs.eq, span_append hname (by simp)]
      dsimp only
      rw [← parsePackageVersion_eq, hv, hv1]
      exact ⟨_, rfl, rfl⟩

theorem prefixed_iff (o : Option (List Char)) :
    (∃ d, parsePrefixedSoname (String.ofList value) = some d ∧ d.operator.map spelled = o) ↔
      rest = [] ∧ o = none ∧ isSoname name = true ∧ hasSo (afterColon name) = true := by
  unfold parsePrefixedSoname
  rw [String.toList_ofList]
  constructor
  · rintro ⟨d, hd, rfl⟩
    split at hd
    · rename_i hok
      rw [Bool.and_eq_true] at hok
      obtain ⟨rfl, rfl⟩ := hs.unique ⟨(List.append_nil _).symm, soname_not_operator hok.1, by simp⟩
      cases hd
      exact ⟨rfl, rfl, hok⟩
    · cases hd
  · rintro ⟨rfl, rfl, hok⟩
    have heq : value = name := by rw [hs.eq, List.append_nil]
    rw [heq, if_pos (Bool.and_eq_true_iff.mpr hok)]
    exact ⟨_, rfl, rfl⟩

end

/-! ## Relations -/

/-- What is neither empty nor longer than 256 bytes, and has no white space. -/
def Sized (value : List Char) : Prop := value ≠ [] ∧ value.length ≤ 256 ∧ ∀ c ∈ value, Graphic c

/-- The one grammar: a name by one of three patterns, with what may follow it. -/
inductive Named (allowSoname : Bool) (so : List Char → Bool) (name : List Char) : Option (List Char) → Prop where
  | word {o : Option (List Char)} (h : isWord isAlnum isRelationChar 63 name = true) : Named allowSoname so name o
  | legacy {o : Option (List Char)} (h : isSonameV1 name = true) (ha : allowSoname = true)
      (ho : o = none ∨ o = some ['=']) : Named allowSoname so name o
  | prefixed (h : isSoname name = true) (ha : allowSoname = true) (hso : so (afterColon name) = true) :
      Named allowSoname so name none

theorem soname_not_word {name : List Char} (h : isSoname name = true) :
    isWord isAlnum isRelationChar 63 name = false ∧ isSonameV1 name = false := by
  have hcolon := (soname_all h).1
  constructor
  · by_contra hword
    exact absurd (word_not_operator (Bool.not_eq_false _ ▸ hword) ':' hcolon) (by decide)
  · by_contra hv1
    exact absurd (sonameV1_all (Bool.not_eq_false _ ▸ hv1) ':' hcolon) (by decide)

theorem checkRelationName_iff (value name : List Char) (o : Option (List Char)) (allowSoname : Bool) :
    Worker.checkRelationName value name o allowSoname = .ok value ↔ Named allowSoname containsSo name o := by
  unfold Worker.checkRelationName
  by_cases hword : isWord isAlnum isRelationChar 63 name = true
  · rw [if_pos hword]
    exact iff_of_true rfl (.word hword)
  rw [if_neg hword]
  by_cases hv1 : isSonameV1 name = true
  · have hsoname : ¬isSoname name = true := fun h => by
      rw [(soname_not_word h).2] at hv1
      cases hv1
    rw [if_pos hv1]
    constructor
    · intro h
      obtain ⟨hno, -⟩ := Fallible.guard_ok.mp h
      rw [not_or, Bool.not_eq_false] at hno
      refine .legacy hv1 hno.1 ?_
      cases o with
      | none => exact .inl rfl
      | some operator => exact .inr (by simpa using hno.2)
    · intro h
      cases h with
      | word h => exact absurd h hword
      | prefixed h => exact absurd h hsoname
      | legacy _ ha ho =>
        refine Fallible.guard_ok.mpr ⟨?_, rfl⟩
        rcases ho with rfl | rfl <;> simp [ha]
  · rw [if_neg hv1, Fallible.guard_ok, Fallible.guard_ok]
    constructor
    · rintro ⟨hno, hyes, -⟩
      simp only [not_or, Bool.not_eq_false] at hyes
      have ho : o = none := by
        cases o with
        | none => rfl
        | some operator => exact absurd ⟨rfl, hyes.2.1⟩ hno
      subst ho
      exact .prefixed hyes.2.1 hyes.1 hyes.2.2
    · intro h
      cases h with
      | word h => exact absurd h hword
      | legacy h => exact absurd h hv1
      | prefixed h ha hso => exact ⟨by simp, by simp [h, ha, hso], rfl⟩

theorem named_graphic {allowSoname : Bool} {so : List Char → Bool} {name : List Char} {o : Option (List Char)}
    (h : Named allowSoname so name o) : ∀ c ∈ name, Graphic c := by
  intro c hc
  cases h with
  | word h => exact graphic_class "@._+-".toList (by decide) (word_not_operator h c hc)
  | legacy h _ _ => exact graphic_class "._+~-".toList (by decide) (sonameV1_all h c hc)
  | prefixed h _ _ =>
    rcases (soname_all h).2 c hc with hc | hc | rfl
    · exact graphic_class "._+~-".toList (by decide) hc
    · exact graphic_class "._+~^-".toList (by decide) hc
    · decide

/-- A relation as both sides see it: `so` is what they ask of a prefixed soname. -/
def Relates (provides allowSoname : Bool) (so : List Char → Bool) (value : List Char) : Prop :=
  Sized value ∧ ∃ name rest o, Divides value name rest ∧ Compares rest o ∧
    (provides = true → o = none ∨ o = some ['=']) ∧ Named allowSoname so name o

theorem divides_graphic {value name rest : List Char} {o : Option (List Char)} {allowSoname : Bool}
    {so : List Char → Bool} (hs : Divides value name rest) (hc : Compares rest o) (hn : Named allowSoname so name o) :
    ∀ c ∈ value, Graphic c := by
  intro c hmem
  rw [hs.eq] at hmem
  rcases List.mem_append.mp hmem with hmem | hmem
  · exact named_graphic hn c hmem
  · exact compares_graphic hc hs.rest c hmem

theorem length_encode {value : List Char} (h : ∀ c ∈ value, Graphic c) : (encode value).length = value.length := by
  induction value with
  | nil => rfl
  | cons c cs ih =>
    have hc : c.toNat < 128 := by
      have := (h c List.mem_cons_self).2
      omega
    have hsize : (String.utf8EncodeChar c).length = 1 := by
      rw [String.length_utf8EncodeChar]
      exact Char.utf8Size_eq_one_iff.mpr (by
        show c.val.toNat ≤ 127
        exact Nat.le_of_lt_succ hc)
    have hrest := ih fun d hd => h d (List.mem_cons_of_mem _ hd)
    rw [encode] at hrest ⊢
    rw [List.flatMap_cons, List.length_append, hsize, hrest, List.length_cons, Nat.add_comm]

theorem checkRelation_iff (value name rest : List Char) (provides allowSoname : Bool) :
    Worker.checkRelation value name rest provides allowSoname = .ok value ↔
      ∃ o, Compares rest o ∧ (provides = true → o = none ∨ o = some ['=']) ∧ Named allowSoname containsSo name o := by
  unfold Worker.checkRelation
  cases htake : Worker.takeOperator rest with
  | none =>
    have hnil : rest = [] := by
      unfold Worker.takeOperator at htake
      split at htake <;> first | rfl | cases htake
    subst hnil
    simp only [checkRelationName_iff, compares_nil, exists_eq_left, true_or, implies_true, true_and]
  | some taken =>
    obtain ⟨operator, version⟩ := taken
    simp only [Fallible.guard_ok, checkRelationName_iff]
    constructor
    · rintro ⟨-, hp, hv, hn⟩
      refine ⟨_, .operator htake (Bool.not_eq_false _ ▸ hv), fun hprov => .inr ?_, hn⟩
      rw [not_and, not_not] at hp
      rw [hp hprov]
    · rintro ⟨o, hc, hp, hn⟩
      cases hc with
      | nothing => cases htake
      | operator hr hv =>
        obtain ⟨rfl, rfl⟩ := Prod.mk.inj (Option.some.inj (htake.symm.trans hr))
        refine ⟨?_, ?_, by rw [hv]; decide, hn⟩
        · rw [Bool.not_eq_true, List.any_eq_false]
          intro c hc
          rw [not_operator_version (version_all (version_valid hv) c hc)]
          decide
        · rintro ⟨hprov, hne⟩
          exact hne (by simpa using hp hprov)

theorem parsePackageRelation_iff (value : List Char) (provides allowSoname : Bool) :
    parsePackageRelation value provides allowSoname = .ok value ↔ Relates provides allowSoname containsSo value := by
  obtain ⟨name, rest, hs, hspan⟩ := divides_exists value
  have hblank : ∀ {c}, Graphic c → c ∉ [' ', '\t', '\r', '\n', '\x00'] := by
    rintro c hc hmem
    simp only [List.mem_cons, List.not_mem_nil, or_false] at hmem
    rcases hmem with rfl | rfl | rfl | rfl | rfl <;> exact absurd hc (by decide)
  unfold parsePackageRelation
  rw [Fallible.guard_ok, hspan]
  dsimp only
  rw [checkRelation_iff]
  constructor
  · rintro ⟨hpre, o, hc, hp, hn⟩
    have hg := divides_graphic hs hc hn
    simp only [not_or, Worker.maxPackageRelationBytes, length_encode hg, Nat.not_lt] at hpre
    exact ⟨⟨hpre.1, hpre.2.1, hg⟩, name, rest, o, hs, hc, hp, hn⟩
  · rintro ⟨⟨hne, hlen, hg⟩, name', rest', o, hs', hc, hp, hn⟩
    obtain ⟨rfl, rfl⟩ := hs.unique hs'
    refine ⟨?_, o, hc, hp, hn⟩
    simp only [not_or, Worker.maxPackageRelationBytes, length_encode hg, Nat.not_lt]
    refine ⟨hne, hlen, ?_⟩
    rw [List.any_eq_true]
    rintro ⟨c, hc, hmem⟩
    exact hblank (hg c hc) (List.contains_iff_mem.mp hmem)

theorem units_graphic {value : List Char} (h : ∀ c ∈ value, Graphic c) :
    units (String.ofList value) = value.map fun c => UInt16.ofNat c.toNat := by
  have hunit : ∀ c ∈ value, encodeUnit c = [UInt16.ofNat c.toNat] := fun c hc => by
    have := (h c hc).2
    rw [encodeUnit, if_pos (by omega)]
  rw [units, String.toList_ofList, List.flatMap_congr hunit]
  induction value with
  | nil => rfl
  | cons c cs ih =>
    rw [List.flatMap_cons, List.map_cons, ih (fun d hd => h d (List.mem_cons_of_mem _ hd))
      fun d hd => hunit d (List.mem_cons_of_mem _ hd)]
    rfl

/-- A visible text has no white space, and no character that a list of relations may not have. -/
theorem graphic_fit {value : List Char} (h : ∀ c ∈ value, Graphic c) :
    hasSpace (String.ofList value) = false ∧
      ((units (String.ofList value)).any fun u => u = 0x0 || u = 0x1F || u = 0x7F) = false := by
  have hunit : ∀ c ∈ value, 0x20 < (UInt16.ofNat c.toNat).toNat ∧ (UInt16.ofNat c.toNat).toNat < 0x7F := fun c hc => by
    have hg := h c hc
    rw [toNat_unit (by have := hg.2; omega)]
    exact hg
  unfold hasSpace
  rw [units_graphic h, List.any_eq_false, List.any_eq_false]
  constructor
  · intro u hu
    obtain ⟨c, hc, rfl⟩ := List.mem_map.mp hu
    exact fun hs => of_decide_eq_true
      (jsSpace_all (p := fun u => decide ¬(0x20 < u.toNat ∧ u.toNat < 0x7F)) (by decide) hs) (hunit c hc)
  · intro u hu
    obtain ⟨c, hc, rfl⟩ := List.mem_map.mp hu
    have hlt := hunit c hc
    simp only [Bool.or_eq_true, decide_eq_true_eq, not_or]
    refine ⟨⟨?_, ?_⟩, ?_⟩ <;> intro he <;> rw [he] at hlt <;> exact absurd hlt (by decide)

section
variable {value name rest : List Char} (hs : Divides value name rest) (hspace : hasSpace (String.ofList value) = false)
include hs hspace

theorem parse_iff (allowSoname : Bool) (o : Option (List Char)) :
    (∃ d, (if allowSoname then parseArchRelation (String.ofList value) else parseArchDependency (String.ofList value)) =
        some d ∧ d.operator.map spelled = o) ↔ Compares rest o ∧ Named allowSoname hasSo name o := by
  cases allowSoname with
  | false =>
    rw [if_neg (by decide), dependency_iff hs hspace]
    constructor
    · rintro ⟨hword, hc⟩
      exact ⟨hc, .word hword⟩
    · rintro ⟨hc, hn⟩
      cases hn with
      | word hword => exact ⟨hword, hc⟩
      | legacy _ ha _ => cases ha
      | prefixed _ ha _ => cases ha
  | true =>
    rw [if_pos rfl, parseArchRelation]
    cases hdep : parseArchDependency (String.ofList value) with
    | some d =>
      obtain ⟨hword, hd⟩ := (dependency_iff hs hspace _).mp ⟨d, hdep, rfl⟩
      constructor
      · rintro ⟨_, ⟨⟩, rfl⟩
        exact ⟨hd, .word hword⟩
      · rintro ⟨hc, -⟩
        exact ⟨d, rfl, compares_unique hd hc⟩
    | none =>
      -- no dependency: a soname of either kind
      have hno : ∀ {o}, Compares rest o → isWord isAlnum isRelationChar 63 name ≠ true := fun hc hword => by
        obtain ⟨_, hd, -⟩ := (dependency_iff hs hspace _).mpr ⟨hword, hc⟩
        rw [hdep] at hd
        cases hd
      cases hleg : parseLegacySoname (String.ofList value) with
      | some d =>
        obtain ⟨hv1, hd, ho⟩ := (legacy_iff hs _).mp ⟨d, hleg, rfl⟩
        constructor
        · rintro ⟨_, ⟨⟩, rfl⟩
          exact ⟨hd, .legacy hv1 rfl ho⟩
        · rintro ⟨hc, -⟩
          exact ⟨d, rfl, compares_unique hd hc⟩
      | none =>
        constructor
        · intro h
          obtain ⟨rfl, rfl, hsoname, hso⟩ := (prefixed_iff hs o).mp h
          exact ⟨.nothing, .prefixed hsoname rfl hso⟩
        · rintro ⟨hc, hn⟩
          cases hn with
          | word hword => exact absurd hword (hno hc)
          | legacy hv1 _ ho =>
            obtain ⟨_, hd, -⟩ := (legacy_iff hs _).mpr ⟨hv1, hc, ho⟩
            rw [hleg] at hd
            cases hd
          | prefixed hsoname _ hso =>
            refine (prefixed_iff hs none).mpr ⟨?_, rfl, hsoname, hso⟩
            cases hc
            rfl

end

theorem isRelation_iff (value : List Char) (provides allowSoname : Bool) :
    isRelation provides allowSoname (String.ofList value) = true ↔ Relates provides allowSoname hasSo value := by
  obtain ⟨name, rest, hs, -⟩ := divides_exists value
  have hprov : ∀ d : Arch.ArchDependency,
      ((!provides || d.operator.isNone || decide (d.operator = some .eq)) = true ↔
        (provides = true → d.operator.map spelled = none ∨ d.operator.map spelled = some ['='])) := by
    intro d
    cases provides with
    | false => simp
    | true =>
      cases d.operator with
      | none => simp
      | some op => simp [spelled_eq]
  unfold isRelation
  dsimp only
  constructor
  · intro h
    split at h
    · cases h
    rename_i hpre
    simp only [not_or, Bool.not_eq_true] at hpre
    split at h
    · cases h
    · rename_i d hd
      obtain ⟨hc, hn⟩ := (parse_iff hs hpre.2.2.2 allowSoname _).mp ⟨d, hd, rfl⟩
      have hg := divides_graphic hs hc hn
      refine ⟨⟨?_, ?_, hg⟩, name, rest, _, hs, hc, (hprov d).mp h, hn⟩
      · rintro rfl
        exact hpre.1 rfl
      · have hlen := hpre.2.1
        rw [units_graphic hg, List.length_map] at hlen
        exact Nat.le_of_not_lt hlen
  · rintro ⟨⟨hne, hlen, hg⟩, name', rest', o, hs', hc, hp, hn⟩
    obtain ⟨rfl, rfl⟩ := hs.unique hs'
    obtain ⟨hspace, hfit⟩ := graphic_fit hg
    obtain ⟨d, hd, rfl⟩ := (parse_iff hs hspace allowSoname o).mpr ⟨hc, hn⟩
    have hempty : String.ofList value ≠ "" := fun h => hne (by simpa using congrArg String.toList h)
    rw [if_neg, hd]
    · exact (hprov d).mpr hp
    · refine not_or.mpr ⟨hempty, not_or.mpr ⟨?_, not_or.mpr ⟨?_, ?_⟩⟩⟩
      · rw [units_graphic hg, List.length_map]
        exact Nat.not_lt.mpr hlen
      · rw [hfit]
        decide
      · rw [hspace]
        decide

/-- What the server asks of a prefixed soname beyond what the worker asks. -/
def SonameEnds (value : List Char) : Prop := isSoname value = true → hasSo (afterColon value) = true

theorem containsSo_of_hasSo {s : List Char} (h : hasSo s = true) : containsSo s = true := by
  obtain ⟨r, hr, hso⟩ := List.any_eq_true.mp h
  refine List.any_eq_true.mpr ⟨r.map Char.toLower, ?_, ?_⟩
  · exact (List.mem_tails _ _).mpr (((List.mem_tails _ _).mp hr).map _)
  · unfold startsSo at hso
    split at hso
    · simp only [Bool.and_eq_true, decide_eq_true_eq] at hso
      have hdot : Char.toLower '.' = '.' := by decide
      simp [List.isPrefixOf, hdot, hso.1.1, hso.1.2]
    · cases hso

/-- The two programs take the same relations, but for prefixed sonames. -/
theorem relation_agrees (value : List Char) (provides allowSoname : Bool) :
    isRelation provides allowSoname (String.ofList value) = true ↔
      parsePackageRelation value provides allowSoname = .ok value ∧ SonameEnds value := by
  rw [isRelation_iff, parsePackageRelation_iff]
  constructor
  · rintro ⟨hsize, name, rest, o, hs, hc, hp, hn⟩
    refine ⟨⟨hsize, name, rest, o, hs, hc, hp, ?_⟩, fun hsoname => ?_⟩
    · cases hn with
      | word h => exact .word h
      | legacy h ha ho => exact .legacy h ha ho
      | prefixed h ha hso => exact .prefixed h ha (containsSo_of_hasSo hso)
    · obtain ⟨rfl, rfl⟩ := hs.unique ⟨(List.append_nil _).symm, soname_not_operator hsoname, by simp⟩
      obtain ⟨hword, hv1⟩ := soname_not_word hsoname
      cases hn with
      | word h => rw [hword] at h; cases h
      | legacy h _ _ => rw [hv1] at h; cases h
      | prefixed _ _ hso => exact hso
  · rintro ⟨⟨hsize, name, rest, o, hs, hc, hp, hn⟩, hends⟩
    refine ⟨hsize, name, rest, o, hs, hc, hp, ?_⟩
    cases hn with
    | word h => exact .word h
    | legacy h ha ho => exact .legacy h ha ho
    | prefixed h ha _ =>
      have hrest : rest = [] := by
        cases hc
        rfl
      have hvalue : value = name := by rw [hs.eq, hrest, List.append_nil]
      subst hvalue
      exact .prefixed h ha (hends h)

end Omapkg.Wire
