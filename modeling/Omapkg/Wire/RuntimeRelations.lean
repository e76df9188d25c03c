import Omapkg.Server.ArchCovers
import Omapkg.Worker.RuntimeClosure
/-!
# Satisfied relations of both sides

Whether an installed package satisfies a relation, as the server and the worker decide it,
against libalpm. The server asks a package of the relation's own name for its version alone;
the worker takes every version that is provided, whatever the operator before it. The three
agree exactly where neither matters (`satisfies_agrees_iff`).
-/

namespace Omapkg.Wire

open Json Utf Omapkg.Server
open Omapkg.Server.Arch (ArchDependency Operator isWord isRelationChar hasSo isVersionText parseArchPackageVersion
  parseArchDependency parseLegacySoname parsePrefixedSoname parseArchRelation satisfiesArchDependency
  satisfiesArchRelation compareArchVersions)
open Omapkg.Worker (InstalledPackage Vercmp Comparisons Answers AnswersFor Asked Satisfied VersionMeets availableVersions
  dependencyParts isOperatorChar operatorHolds parsePackageRelation parsePackageVersion sign)

/-! ## Parts -/

theorem dependencyParts_name {name : List Char} (h : ∀ c ∈ name, isOperatorChar c = false) :
    dependencyParts (String.ofList name) = (String.ofList name, "", "") := by
  have hspan : name.span (fun c => !isOperatorChar c) = (name, []) := by
    have happend : (name ++ []).span (fun c => !isOperatorChar c) = (name, []) :=
      span_append (fun c hc => by rw [h c hc]; rfl) (by simp)
    rwa [List.append_nil] at happend
  rw [dependencyParts, String.toList_ofList, hspan]

theorem dependencyParts_spelled {name version : List Char} (h : ∀ c ∈ name, isOperatorChar c = false) (op : Operator)
    (hv : version.head? ≠ some '=') :
    dependencyParts (String.ofList (name ++ (spelled op ++ version))) =
      (String.ofList name, String.ofList (spelled op), String.ofList version) := by
  have hspan : (name ++ (spelled op ++ version)).span (fun c => !isOperatorChar c) = (name, spelled op ++ version) := by
    refine span_append (fun c hc => by rw [h c hc]; rfl) fun c hc => ?_
    cases op <;> cases hc <;> decide
  rw [dependencyParts, String.toList_ofList, hspan]
  cases op with
  | ge => rfl
  | le => rfl
  | eq =>
    cases version with
    | nil => rfl
    | cons c cs =>
      have hc : c ≠ '=' := fun h => hv (h ▸ rfl)
      simp [spelled, hc]
  | gt =>
    cases version with
    | nil => rfl
    | cons c cs =>
      have hc : c ≠ '=' := fun h => hv (h ▸ rfl)
      simp [spelled, hc]
  | lt =>
    cases version with
    | nil => rfl
    | cons c cs =>
      have hc : c ≠ '=' := fun h => hv (h ▸ rfl)
      simp [spelled, hc]

theorem takeOperator_split {rest version : List Char} {op : Operator}
    (h : Arch.takeOperator rest = some (op, version)) : rest = spelled op ++ version := by
  unfold Arch.takeOperator at h
  split at h <;> cases h <;> rfl

theorem version_head {version : List Char} (h : (parseArchPackageVersion version).isSome = true) :
    version ≠ [] ∧ version.head? ≠ some '=' := by
  rw [← parsePackageVersion_eq] at h
  refine ⟨by rintro rfl; exact absurd h (by decide), fun hhead => ?_⟩
  have hmem : '=' ∈ version := List.mem_of_mem_head? hhead
  exact absurd (version_all (version_valid h) '=' hmem) (by decide)

/-- The operator of a relation as it is spelled, and nothing where it has none. -/
def operatorText : Option Operator → String
  | none => ""
  | some op => String.ofList (spelled op)

/-- What the server parses is what the worker takes apart. -/
structure Parts (relation : String) (d : ArchDependency) : Prop where
  parts : dependencyParts relation = (d.name, operatorText d.operator, d.version.getD "")
  version : d.operator = none ∧ d.version = none ∨
    ∃ op version, d.operator = some op ∧ d.version = some version ∧
      (parseArchPackageVersion version.toList).isSome = true

theorem parts_bare {name : List Char} (h : ∀ c ∈ name, isOperatorChar c = false) :
    Parts (String.ofList name) ⟨String.ofList name, none, none⟩ :=
  ⟨dependencyParts_name h, .inl ⟨rfl, rfl⟩⟩

theorem parts_compared {name version : List Char} (h : ∀ c ∈ name, isOperatorChar c = false) (op : Operator)
    (hv : (parseArchPackageVersion version).isSome = true) :
    Parts (String.ofList (name ++ (spelled op ++ version)))
      ⟨String.ofList name, some op, some (String.ofList version)⟩ :=
  ⟨dependencyParts_spelled h op (version_head hv).2, .inr ⟨op, String.ofList version, rfl, rfl, by rwa [String.toList_ofList]⟩⟩

theorem parseArchDependency_parts {value : List Char} {d : ArchDependency}
    (h : parseArchDependency (String.ofList value) = some d) : Parts (String.ofList value) d := by
  unfold parseArchDependency at h
  split at h
  · cases h
  rw [String.toList_ofList] at h
  rcases hspan : value.span isRelationChar with ⟨name, rest⟩
  rw [hspan] at h
  dsimp only at h
  have heq : value = name ++ rest := by
    rw [List.span_eq_takeWhile_dropWhile, Prod.mk.injEq] at hspan
    rw [← hspan.1, ← hspan.2, List.takeWhile_append_dropWhile]
  split at h
  · cases h
  rename_i hword
  rw [Bool.not_eq_false] at hword
  have hname : ∀ c ∈ name, isOperatorChar c = false := fun c hc => not_operator_relation (word_not_operator hword c hc)
  split at h
  · rename_i hnil
    cases h
    rw [heq, hnil, List.append_nil]
    exact parts_bare hname
  · split at h
    · rename_i op version htake
      split at h
      · rename_i hv
        cases h
        rw [heq, takeOperator_split htake]
        exact parts_compared hname op hv
      · cases h
    · cases h

theorem parseLegacySoname_parts {value : List Char} {d : ArchDependency}
    (h : parseLegacySoname (String.ofList value) = some d) : Parts (String.ofList value) d := by
  unfold parseLegacySoname at h
  rw [String.toList_ofList] at h
  rcases hspan : value.span (fun c => decide (c ≠ '=')) with ⟨name, _ | ⟨e, version⟩⟩
  · rw [hspan] at h
    dsimp only at h
    split at h
    · rename_i hv1
      obtain ⟨-, rfl⟩ := not_mem_of_span hspan
      cases h
      exact parts_bare (sonameV1_not_operator hv1)
    · cases h
  · rw [hspan] at h
    dsimp only at h
    have he : e = '=' := by
      rw [List.span_eq_takeWhile_dropWhile, Prod.mk.injEq] at hspan
      have hhead := List.head?_dropWhile_not (fun c => decide (c ≠ '=')) value
      rw [hspan.2] at hhead
      simpa using hhead
    have heq : value = name ++ (spelled .eq ++ version) := by
      rw [List.span_eq_takeWhile_dropWhile, Prod.mk.injEq] at hspan
      rw [← List.takeWhile_append_dropWhile (p := fun c => decide (c ≠ '=')) (l := value), hspan.1, hspan.2, he]
      rfl
    split at h
    · rename_i hok
      rw [Bool.and_eq_true] at hok
      cases h
      rw [heq]
      exact parts_compared (sonameV1_not_operator hok.1) .eq hok.2
    · cases h

theorem parsePrefixedSoname_parts {value : List Char} {d : ArchDependency}
    (h : parsePrefixedSoname (String.ofList value) = some d) : Parts (String.ofList value) d := by
  unfold parsePrefixedSoname at h
  split at h
  · rename_i hok
    rw [Bool.and_eq_true, String.toList_ofList] at hok
    cases h
    exact parts_bare (soname_not_operator hok.1)
  · cases h

theorem parseArchRelation_parts {relation : String} {d : ArchDependency} (h : parseArchRelation relation = some d) :
    Parts relation d := by
  rw [← String.ofList_toList (s := relation)] at h ⊢
  unfold parseArchRelation at h
  cases hdep : parseArchDependency (String.ofList relation.toList) with
  | some d' =>
    rw [hdep] at h
    cases h
    exact parseArchDependency_parts hdep
  | none =>
    cases hleg : parseLegacySoname (String.ofList relation.toList) with
    | some d' =>
      rw [hdep, hleg] at h
      cases h
      exact parseLegacySoname_parts hleg
    | none =>
      rw [hdep, hleg] at h
      exact parsePrefixedSoname_parts h

/-! ## Admitted relations -/

theorem dependencyParts_divides {value name rest : List Char} (h : Divides value name rest) :
    (dependencyParts (String.ofList value)).1 = String.ofList name := by
  have hspan : value.span (fun c => !isOperatorChar c) = (name, rest) := by
    rw [h.eq]
    exact span_append (fun c hc => by rw [h.name c hc]; rfl) fun c hc => by rw [h.rest c hc]; rfl
  rw [dependencyParts, String.toList_ofList, hspan]
  split
  · rename_i hnil
    cases hnil
    rw [h.eq, List.append_nil]
  · rename_i hcons
    cases hcons
    rfl
  · rename_i hcons
    cases hcons
    rfl

/-- A relation that the worker admits, of the name of one that both admit, is parsed. -/
theorem parses_of_name {provided relation : String} {d : ArchDependency}
    (hp : parsePackageRelation provided.toList false true = .ok provided.toList)
    (hr : parsePackageRelation relation.toList false true = .ok relation.toList)
    (hd : parseArchRelation relation = some d) (hname : (dependencyParts provided).1 = (dependencyParts relation).1) :
    ∃ d', parseArchRelation provided = some d' := by
  obtain ⟨hsized, name, rest, o, hs, hc, -, hn⟩ := (parsePackageRelation_iff _ _ _).mp hp
  obtain ⟨hsized', name', rest', o', hs', hc', -, hn'⟩ := (parsePackageRelation_iff _ _ _).mp hr
  have heq : name = name' := by
    have h1 := dependencyParts_divides hs
    have h2 := dependencyParts_divides hs'
    rw [String.ofList_toList] at h1 h2
    exact String.ofList_injective ((h1.symm.trans hname).trans h2)
  have hspace := (graphic_fit hsized.2.2).1
  have hspace' := (graphic_fit hsized'.2.2).1
  obtain ⟨o', ho'⟩ : ∃ o', d.operator.map spelled = o' := ⟨_, rfl⟩
  obtain ⟨-, hn''⟩ := (parse_iff hs' hspace' true o').mp ⟨d, by rwa [if_pos rfl, String.ofList_toList], ho'⟩
  -- a prefixed soname is as the server wants it, since the relation is
  have hnamed : Named true hasSo name o := by
    cases hn with
    | word hword => exact .word hword
    | legacy hv1 ha ho => exact .legacy hv1 ha ho
    | prefixed hsoname ha hso =>
      cases hn'' with
      | word hword =>
        rw [← heq, (soname_not_word hsoname).1] at hword
        cases hword
      | legacy hv1 =>
        rw [← heq, (soname_not_word hsoname).2] at hv1
        cases hv1
      | prefixed _ _ hso' => exact .prefixed hsoname ha (heq ▸ hso')
  obtain ⟨d', hd', -⟩ := (parse_iff hs hspace true o).mpr ⟨hc, hnamed⟩
  rw [if_pos rfl, String.ofList_toList] at hd'
  exact ⟨d', hd'⟩

/-! ## The three answers -/

/-- `_alpm_depcmp_literal`: the package itself. -/
def OwnSatisfied (order : String → String → Ordering) (pkg : InstalledPackage) (relation : String) : Prop :=
  (dependencyParts relation).1 = pkg.name ∧
    VersionMeets order (dependencyParts relation).2.1 (dependencyParts relation).2.2 pkg.version

/-- `_alpm_depcmp_provides`: a version counts behind `=` alone. -/
def ProvidedSatisfied (order : String → String → Ordering) (pkg : InstalledPackage) (relation : String) : Prop :=
  ∃ provided ∈ pkg.provides, (dependencyParts provided).1 = (dependencyParts relation).1 ∧
    ((dependencyParts relation).2.1 = "" ∨ (dependencyParts provided).2.1 = "=" ∧
      VersionMeets order (dependencyParts relation).2.1 (dependencyParts relation).2.2 (dependencyParts provided).2.2)

/-- `_alpm_depcmp`: what a package satisfies as libalpm has it. -/
def AlpmSatisfied (order : String → String → Ordering) (pkg : InstalledPackage) (relation : String) : Prop :=
  OwnSatisfied order pkg relation ∨ ProvidedSatisfied order pkg relation

/-- The package provides its own name at a version that satisfies the relation, and its own version does not. -/
def SelfProvided (order : String → String → Ordering) (pkg : InstalledPackage) (relation : String) : Prop :=
  (dependencyParts relation).1 = pkg.name ∧ ¬OwnSatisfied order pkg relation ∧ ProvidedSatisfied order pkg relation

/-- Only a version that is provided behind another operator than `=` satisfies the relation. -/
def Misprovided (order : String → String → Ordering) (pkg : InstalledPackage) (relation : String) : Prop :=
  ¬AlpmSatisfied order pkg relation ∧ ∃ provided ∈ pkg.provides,
    (dependencyParts provided).1 = (dependencyParts relation).1 ∧ (dependencyParts provided).2.1 ≠ "=" ∧
      VersionMeets order (dependencyParts relation).2.1 (dependencyParts relation).2.2 (dependencyParts provided).2.2

/-- The server's comparison is that of the tool, for what a package is asked. -/
def ComparesFor (order : String → String → Ordering) (pkg : InstalledPackage) (relation : String) : Prop :=
  ∀ version ∈ availableVersions pkg (dependencyParts relation).1, (dependencyParts relation).2.1 ≠ "" → version ≠ "" →
    compareArchVersions version.toList (dependencyParts relation).2.2.toList =
      some (order version (dependencyParts relation).2.2)

section
variable {order : String → String → Ordering} {pkg : InstalledPackage} {relation : String} {d : ArchDependency}

theorem own_available (h : (dependencyParts relation).1 = pkg.name) :
    pkg.version ∈ availableVersions pkg (dependencyParts relation).1 :=
  List.mem_append_left _ (by rw [if_pos h]; exact List.mem_singleton_self _)

theorem provided_available {provided : String} (hmem : provided ∈ pkg.provides)
    (h : (dependencyParts provided).1 = (dependencyParts relation).1) :
    (dependencyParts provided).2.2 ∈ availableVersions pkg (dependencyParts relation).1 :=
  List.mem_append_right _ (List.mem_filterMap.mpr ⟨provided, hmem, if_pos h⟩)

/-- The worker: every version that the name is had at. -/
theorem satisfied_iff : Satisfied order pkg relation ↔ OwnSatisfied order pkg relation ∨
    ∃ provided ∈ pkg.provides, (dependencyParts provided).1 = (dependencyParts relation).1 ∧
      VersionMeets order (dependencyParts relation).2.1 (dependencyParts relation).2.2 (dependencyParts provided).2.2 := by
  constructor
  · rintro ⟨version, hv, hmeets⟩
    rcases List.mem_append.mp hv with hv | hv
    · split at hv
      · rename_i hown
        rw [List.mem_singleton] at hv
        exact .inl ⟨hown, hv ▸ hmeets⟩
      · cases hv
    · obtain ⟨provided, hmem, hprovided⟩ := List.mem_filterMap.mp hv
      split at hprovided
      · rename_i hname
        cases hprovided
        exact .inr ⟨provided, hmem, hname, hmeets⟩
      · cases hprovided
  · rintro (⟨hown, hmeets⟩ | ⟨provided, hmem, hname, hmeets⟩)
    · exact ⟨pkg.version, own_available hown, hmeets⟩
    · exact ⟨_, provided_available hmem hname, hmeets⟩

theorem provided_meets (h : ProvidedSatisfied order pkg relation) : Satisfied order pkg relation := by
  obtain ⟨provided, hmem, hname, hop | ⟨-, hmeets⟩⟩ := h
  · exact satisfied_iff.mpr (.inr ⟨provided, hmem, hname, .inl hop⟩)
  · exact satisfied_iff.mpr (.inr ⟨provided, hmem, hname, hmeets⟩)

theorem worker_iff : (Satisfied order pkg relation ↔ AlpmSatisfied order pkg relation) ↔
    ¬Misprovided order pkg relation := by
  constructor
  · rintro h ⟨hno, provided, hmem, hname, -, hmeets⟩
    exact hno (h.mp (satisfied_iff.mpr (.inr ⟨provided, hmem, hname, hmeets⟩)))
  · intro hmis
    constructor
    · intro hsat
      by_contra hno
      rcases satisfied_iff.mp hsat with hown | ⟨provided, hmem, hname, hmeets⟩
      · exact hno (.inl hown)
      · refine hmis ⟨hno, provided, hmem, hname, fun hop => hno (.inr ?_), hmeets⟩
        exact ⟨provided, hmem, hname, .inr ⟨hop, hmeets⟩⟩
    · rintro (hown | hprovided)
      · exact satisfied_iff.mpr (.inl hown)
      · exact provided_meets hprovided

theorem operatorHolds_spelled (op : Operator) (o : Ordering) :
    operatorHolds (String.ofList (spelled op)) (sign o) = op.holds o := by
  cases op <;> cases o <;> decide

theorem operatorText_ne (op : Operator) : operatorText (some op) ≠ "" := by
  cases op <;> decide

theorem operatorText_eq {o : Option Operator} : operatorText o = "=" ↔ o = some .eq := by
  cases o with
  | none => decide
  | some op => cases op <;> decide

/-- What the server asks of one version. -/
theorem satisfiesArchDependency_meets (hd : Parts relation d) (hoperator : d.operator ≠ none)
    (hcompares : ComparesFor order pkg relation) {version : String}
    (hv : version ∈ availableVersions pkg (dependencyParts relation).1) (hne : version ≠ "") :
    satisfiesArchDependency d version = true ↔
      VersionMeets order (dependencyParts relation).2.1 (dependencyParts relation).2.2 version := by
  obtain ⟨name, operator, wanted⟩ := d
  obtain ⟨hparts, hversion⟩ := hd
  rcases hversion with ⟨hnone, -⟩ | ⟨op, w, hop, hw, -⟩
  · exact absurd hnone hoperator
  simp only at hop hw
  subst hop hw
  have hcompare := hcompares version hv
  simp only [hparts, Option.getD_some, VersionMeets, operatorText_ne, ne_eq, not_false_iff, hne, true_and, false_or,
    forall_const] at hcompare ⊢
  rw [operatorText, operatorHolds_spelled, satisfiesArchDependency]
  dsimp only
  rw [hcompare]
  cases op <;> rfl

/-- One provided value, as the server reads it. -/
theorem server_provided (hp : pkg.Admitted)
    (hworker : parsePackageRelation relation.toList false true = .ok relation.toList)
    (hserver : parseArchRelation relation = some d) (hcompares : ComparesFor order pkg relation) {provided : String}
    (hmem : provided ∈ pkg.provides) :
    ((match parseArchRelation provided with
      | none => false
      | some value => value.name = d.name && (d.operator.isNone ||
          (value.operator = some .eq && value.version.any fun version => satisfiesArchDependency d version))) = true) ↔
      (dependencyParts provided).1 = (dependencyParts relation).1 ∧
        ((dependencyParts relation).2.1 = "" ∨ (dependencyParts provided).2.1 = "=" ∧
          VersionMeets order (dependencyParts relation).2.1 (dependencyParts relation).2.2 (dependencyParts provided).2.2) := by
  have hd := parseArchRelation_parts hserver
  cases hparse : parseArchRelation provided with
  | none =>
    refine iff_of_false Bool.false_ne_true fun h => ?_
    obtain ⟨hname, -⟩ := h
    obtain ⟨d', hd'⟩ := parses_of_name (hp.relations provided (List.mem_append_right _ hmem)) hworker hserver hname
    rw [hparse] at hd'
    cases hd'
  | some value =>
    have hvalue := parseArchRelation_parts hparse
    have hname : value.name = (dependencyParts provided).1 := by rw [hvalue.parts]
    have hname' : d.name = (dependencyParts relation).1 := by rw [hd.parts]
    have hoperator : operatorText value.operator = (dependencyParts provided).2.1 := by rw [hvalue.parts]
    have hoperator' : operatorText d.operator = (dependencyParts relation).2.1 := by rw [hd.parts]
    have hversion : value.version.getD "" = (dependencyParts provided).2.2 := by rw [hvalue.parts]
    dsimp only
    rw [Bool.and_eq_true, Bool.or_eq_true, Bool.and_eq_true, decide_eq_true_eq, decide_eq_true_eq, hname, hname']
    refine and_congr_right fun hsame => ?_
    rw [← hoperator, operatorText_eq]
    by_cases hnone : d.operator = none
    · rw [← hoperator', hnone]
      exact iff_of_true (.inl rfl) (.inl rfl)
    have hne : (dependencyParts relation).2.1 ≠ "" := by
      obtain ⟨op, hop⟩ := Option.ne_none_iff_exists'.mp hnone
      rw [← hoperator', hop]
      exact operatorText_ne op
    simp only [Option.isNone_iff_eq_none, hnone, hne, false_or]
    refine and_congr_right fun heq => ?_
    rcases hvalue.version with ⟨hno, -⟩ | ⟨op, version, -, hw, hvalid⟩
    · rw [hno] at heq
      cases heq
    rw [hw, Option.getD_some] at hversion
    have hempty : version ≠ "" := by
      rintro rfl
      exact absurd hvalid (by decide)
    rw [hw, Option.any_some, hversion]
    rw [hversion] at hempty
    exact satisfiesArchDependency_meets hd hnone hcompares (provided_available hmem hsame) hempty

/-- The server: the own version of a package of the name, and what others provide. -/
theorem server_iff (hp : pkg.Admitted)
    (hworker : parsePackageRelation relation.toList false true = .ok relation.toList)
    (hserver : parseArchRelation relation = some d) (hcompares : ComparesFor order pkg relation) :
    satisfiesArchRelation d pkg.name pkg.version pkg.provides = true ↔
      if (dependencyParts relation).1 = pkg.name then OwnSatisfied order pkg relation
      else ProvidedSatisfied order pkg relation := by
  have hd := parseArchRelation_parts hserver
  have hname : (dependencyParts relation).1 = d.name := by rw [hd.parts]
  have hoperator : (dependencyParts relation).2.1 = operatorText d.operator := by rw [hd.parts]
  rw [satisfiesArchRelation, ← hname]
  split
  · rename_i hown
    rw [Bool.or_eq_true, Option.isNone_iff_eq_none]
    by_cases hnone : d.operator = none
    · refine iff_of_true (.inl hnone) ⟨hown, .inl ?_⟩
      rw [hoperator, hnone]
      rfl
    · have hempty : pkg.version ≠ "" := by
        intro h
        have hversion := hp.version
        rw [h] at hversion
        exact absurd hversion (by decide)
      rw [satisfiesArchDependency_meets hd hnone hcompares (own_available hown) hempty]
      simp only [hnone, false_or, OwnSatisfied, hown, true_and]
  · rw [List.any_eq_true]
    refine exists_congr fun provided => and_congr_right fun hmem => ?_
    rw [hname]
    rw [← hname]
    exact hname ▸ server_provided hp hworker hserver hcompares hmem

theorem server_alpm_iff {answer : Prop}
    (h : answer ↔ if (dependencyParts relation).1 = pkg.name then OwnSatisfied order pkg relation
      else ProvidedSatisfied order pkg relation) :
    (answer ↔ AlpmSatisfied order pkg relation) ↔ ¬SelfProvided order pkg relation := by
  rw [h]
  split
  · rename_i hown
    constructor
    · rintro hiff ⟨-, hno, hprovided⟩
      exact hno (hiff.mpr (.inr hprovided))
    · intro hself
      constructor
      · exact .inl
      · rintro (h | h)
        · exact h
        · by_contra hno
          exact hself ⟨hown, hno, h⟩
  · rename_i hown
    refine iff_of_true ⟨.inr, ?_⟩ fun h => hown h.1
    rintro (h | h)
    · exact absurd h.1 hown
    · exact h

end

/-- The server and the worker answer as libalpm exactly where the package does not provide its own name at a version
that alone satisfies the relation, nor a version behind another operator than `=` that alone does. -/
theorem satisfies_agrees_iff {vercmp : Vercmp} {order : String → String → Ordering} {pkg : InstalledPackage}
    (hp : pkg.Admitted) {relation : String} {d : ArchDependency}
    (hworker : parsePackageRelation relation.toList false true = .ok relation.toList)
    (hserver : parseArchRelation relation = some d) {comparisons : Comparisons} (hasked : Asked vercmp comparisons)
    (hanswers : AnswersFor vercmp order pkg relation) (hcompares : ComparesFor order pkg relation) :
    ∃ answer comparisons', Worker.satisfies vercmp pkg relation comparisons = .ok (answer, comparisons') ∧
      ((satisfiesArchRelation d pkg.name pkg.version pkg.provides = answer ∧
          (answer = true ↔ AlpmSatisfied order pkg relation)) ↔
        ¬SelfProvided order pkg relation ∧ ¬Misprovided order pkg relation) := by
  obtain ⟨answer, comparisons', heq, -, hanswer⟩ := Worker.satisfies_answers hp hanswers hasked.kept
  refine ⟨answer, comparisons', heq, ?_⟩
  have hs := server_alpm_iff (server_iff hp hworker hserver hcompares)
  have hw : (Satisfied order pkg relation ↔ AlpmSatisfied order pkg relation) ↔ ¬Misprovided order pkg relation := worker_iff
  rw [← hs, ← hw, hanswer, Bool.eq_iff_iff, hanswer]
  constructor
  · rintro ⟨hsame, halpm⟩
    exact ⟨hsame.trans halpm, halpm⟩
  · rintro ⟨hsame, halpm⟩
    exact ⟨hsame.trans halpm.symm, halpm⟩

def sampleTool : InstalledPackage := ⟨"tool", "1.2-1", [], ["runner=3"]⟩

theorem sampleTool_admitted : sampleTool.Admitted := ⟨by decide, by decide, by decide⟩

theorem sampleTool_compares : ComparesFor Worker.alpmOrder sampleTool "runner>=2" := by
  intro version hv _ _
  have hversions : availableVersions sampleTool (dependencyParts "runner>=2").1 = ["3"] := by decide
  rw [hversions, List.mem_singleton] at hv
  subst hv
  decide

/-- A version that is provided satisfies a relation on all sides. -/
theorem satisfies_agrees_tool :
    ∃ answer comparisons', Worker.satisfies Worker.alpmVercmp sampleTool "runner>=2" [] = .ok (answer, comparisons') ∧
      ((satisfiesArchRelation ⟨"runner", some .ge, some "2"⟩ "tool" "1.2-1" ["runner=3"] = answer ∧
          (answer = true ↔ AlpmSatisfied Worker.alpmOrder sampleTool "runner>=2")) ↔
        ¬SelfProvided Worker.alpmOrder sampleTool "runner>=2" ∧ ¬Misprovided Worker.alpmOrder sampleTool "runner>=2") :=
  satisfies_agrees_iff sampleTool_admitted (by decide) (by decide) .nothing
    (fun version _ _ _ => Worker.alpmVercmp_answers version _) sampleTool_compares

/-- A package that provides its own name at a later version. -/
def selfProviding : InstalledPackage := ⟨"foo", "1-1", [], ["foo=2"]⟩

/-- The worker lets it satisfy a relation that the server does not. -/
theorem self_provided_differs : selfProviding.Admitted ∧
    parsePackageRelation "foo>=2".toList false true = .ok "foo>=2".toList ∧
    parseArchRelation "foo>=2" = some ⟨"foo", some .ge, some "2"⟩ ∧ ComparesFor Worker.alpmOrder selfProviding "foo>=2" ∧
    (∃ comparisons, Worker.satisfies Worker.alpmVercmp selfProviding "foo>=2" [] = .ok (true, comparisons)) ∧
    AlpmSatisfied Worker.alpmOrder selfProviding "foo>=2" ∧
    satisfiesArchRelation ⟨"foo", some .ge, some "2"⟩ "foo" "1-1" ["foo=2"] = false := by
  have hcompares : ComparesFor Worker.alpmOrder selfProviding "foo>=2" := by
    intro version hv _ _
    have hversions : availableVersions selfProviding (dependencyParts "foo>=2").1 = ["1-1", "2"] := by decide
    rw [hversions, List.mem_cons, List.mem_singleton] at hv
    rcases hv with rfl | rfl <;> decide
  refine ⟨⟨by decide, by decide, by decide⟩, by decide, by decide, hcompares, ⟨[("1-1\n2", -1)], by decide⟩, ?_, by decide⟩
  exact .inr ⟨"foo=2", List.mem_singleton_self _, by decide, .inr ⟨by decide, .inr ⟨by decide, by decide⟩⟩⟩

end Omapkg.Wire
