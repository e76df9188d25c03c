import Mathlib.Data.List.Nodup
import Mathlib.Order.Bounds.Basic
import Omapkg.Server.AlpmVersion
import Omapkg.Wire.PackageMetadata
import Omapkg.Worker.RuntimeDependencies
/-!
# The closure of installed packages

What `closure` computes over a database that was accepted, with a tool that answers: the
least set of packages that is closed under what is needed (`closure_least`). Answers that
are kept are those of the tool (`Asked.kept`), so they change nothing.
-/

namespace Omapkg.Worker

open Utf Omapkg.Client Omapkg.Server
open Omapkg.Server.Arch (isPackageName isVersionText isVersionChar)

/-! ## Databases -/

/-- A package that the inventory takes. -/
structure InstalledPackage.Admitted (pkg : InstalledPackage) : Prop where
  name : isPackageName pkg.name.toList = true
  version : validArchVersion pkg.version.toList = true
  relations : ∀ relation ∈ pkg.depends ++ pkg.provides,
    parsePackageRelation relation.toList false true = .ok relation.toList

/-- What the inventory holds of the packages that it has read. -/
structure Inventory (packages : RuntimePackages) : Prop where
  admitted : ∀ pkg ∈ packages.packages, pkg.Admitted
  nodup : (packages.packages.map (·.name)).Nodup
  providers : ∀ name pkg, (name, pkg) ∈ packages.providers ↔ pkg ∈ packages.packages ∧ name ∈ providerNames pkg

theorem installedPackage_ok {fields : PacmanFields} {pkg : InstalledPackage} (h : installedPackage fields = .ok pkg) :
    isPackageName pkg.name.toList = true ∧ validArchVersion pkg.version.toList = true := by
  unfold installedPackage at h
  split at h
  · obtain ⟨hok, h⟩ := Fallible.guard_ok.mp h
    cases h
    rw [not_or, Bool.not_eq_false, Bool.not_eq_false] at hok
    exact hok
  · cases h

theorem checkRelations_ok {relations : List String} (h : checkRelations relations = .ok ()) :
    ∀ relation ∈ relations, parsePackageRelation relation.toList false true = .ok relation.toList := by
  intro relation hmem
  have hone := Fallible.forM_ok.mp h relation hmem
  cases hparse : parsePackageRelation relation.toList false true with
  | error e =>
    rw [hparse] at hone
    cases hone
  | ok value => rw [Wire.parsePackageRelation_value hparse]

/-- A directory is passed over, or adds one package of a new name. -/
theorem addInstalled_ok {packages packages' : RuntimePackages} {entry : DatabaseEntry}
    (h : addInstalled packages entry = .ok packages') :
    packages' = packages ∨ ∃ pkg : InstalledPackage, pkg.Admitted ∧ (∀ p ∈ packages.packages, p.name ≠ pkg.name) ∧
      packages'.packages = packages.packages ++ [pkg] ∧
      packages'.providers = packages.providers ++ (providerNames pkg).map fun name => (name, pkg) := by
  unfold addInstalled at h
  split at h
  · cases h
    exact .inl rfl
  · obtain ⟨-, h⟩ := Fallible.guard_ok.mp h
    obtain ⟨fields, -, h⟩ := Fallible.bind_ok.mp h
    obtain ⟨pkg, hpkg, h⟩ := Fallible.bind_ok.mp h
    obtain ⟨hnew, h⟩ := Fallible.guard_ok.mp h
    obtain ⟨⟨⟩, hrelations, h⟩ := Fallible.bind_ok.mp h
    obtain ⟨files, -, h⟩ := Fallible.bind_ok.mp h
    obtain ⟨paths, -, h⟩ := Fallible.bind_ok.mp h
    cases h
    obtain ⟨hname, hversion⟩ := installedPackage_ok hpkg
    refine .inr ⟨pkg, ⟨hname, hversion, checkRelations_ok hrelations⟩, fun p hp heq => hnew ?_, rfl, rfl⟩
    exact List.any_eq_true.mpr ⟨p, hp, decide_eq_true heq⟩

theorem Inventory.empty : Inventory .empty where
  admitted pkg h := by cases h
  nodup := List.nodup_nil
  providers name pkg := by simp [RuntimePackages.empty]

theorem Inventory.add {packages packages' : RuntimePackages} {entry : DatabaseEntry} (hi : Inventory packages)
    (h : addInstalled packages entry = .ok packages') : Inventory packages' := by
  rcases addInstalled_ok h with rfl | ⟨pkg, hpkg, hnew, hpackages, hproviders⟩
  · exact hi
  refine ⟨?_, ?_, ?_⟩
  · rw [hpackages]
    intro p hp
    rcases List.mem_append.mp hp with hp | hp
    · exact hi.admitted p hp
    · exact List.mem_singleton.mp hp ▸ hpkg
  · rw [hpackages, List.map_append, List.nodup_append]
    refine ⟨hi.nodup, List.nodup_singleton _, ?_⟩
    intro a ha b hb hab
    obtain ⟨p, hp, rfl⟩ := List.mem_map.mp ha
    rw [List.map_singleton, List.mem_singleton] at hb
    exact hnew p hp (hab.trans hb)
  · intro name p
    rw [hpackages, hproviders, List.mem_append, List.mem_append, hi.providers, List.mem_map, List.mem_singleton]
    constructor
    · rintro (⟨hp, hname⟩ | ⟨n, hn, heq⟩)
      · exact ⟨.inl hp, hname⟩
      · cases heq
        exact ⟨.inr rfl, hn⟩
    · rintro ⟨hp | rfl, hname⟩
      · exact .inl ⟨hp, hname⟩
      · exact .inr ⟨name, hname, rfl⟩

theorem installedRuntimePackages_inventory {entries : Option (List DatabaseEntry)} {packages : RuntimePackages}
    (h : installedRuntimePackages entries = .ok packages) : Inventory packages := by
  unfold installedRuntimePackages at h
  split at h
  · cases h
  · rename_i entries
    obtain ⟨read, hread, h⟩ := Fallible.bind_ok.mp h
    obtain ⟨-, h⟩ := Fallible.guard_ok.mp h
    cases h
    refine Fallible.foldlM_keeps (P := fun _ packages => Inventory packages) (d := []) ?_ Inventory.empty hread
    intro _ _ _ _ hi hadd
    exact hi.add hadd

/-- A package is known by its name. -/
theorem Inventory.eq_of_name {packages : RuntimePackages} (hi : Inventory packages) {p q : InstalledPackage}
    (hp : p ∈ packages.packages) (hq : q ∈ packages.packages) (h : p.name = q.name) : p = q :=
  List.inj_on_of_nodup_map hi.nodup hp hq h

/-! ## Versions -/

theorem validArchVersion_newline {version : List Char} (h : validArchVersion version = true) : '\n' ∉ version := by
  unfold validArchVersion at h
  split at h
  · cases h
  · rename_i htext
    intro hmem
    exact absurd (Wire.version_all (Bool.not_eq_false _ ▸ htext) '\n' hmem) (by decide)

theorem mem_dependencyParts {relation : String} {c : Char} (h : c ∈ (dependencyParts relation).2.2.toList) :
    c ∈ relation.toList := by
  have hsplit := List.takeWhile_append_dropWhile (p := fun c => !isOperatorChar c) (l := relation.toList)
  unfold dependencyParts at h
  rw [List.span_eq_takeWhile_dropWhile] at h
  generalize List.takeWhile (fun c => !isOperatorChar c) relation.toList = name at h hsplit
  generalize List.dropWhile (fun c => !isOperatorChar c) relation.toList = rest at h hsplit
  rw [← hsplit]
  split at h
  · cases h
  · rename_i heq
    cases heq
    rw [String.toList_ofList] at h
    simp [h]
  · rename_i heq
    cases heq
    rw [String.toList_ofList] at h
    simp [h]

theorem parsePackageRelation_newline {value : List Char} {provides allowSoname : Bool}
    (h : parsePackageRelation value provides allowSoname = .ok value) : '\n' ∉ value := by
  unfold parsePackageRelation at h
  obtain ⟨hok, -⟩ := Fallible.guard_ok.mp h
  intro hmem
  refine hok (.inr (.inr (List.any_eq_true.mpr ⟨'\n', hmem, by decide⟩)))

theorem InstalledPackage.Admitted.newline {pkg : InstalledPackage} (h : pkg.Admitted) {name version : String}
    (hv : version ∈ availableVersions pkg name) : '\n' ∉ version.toList := by
  rcases List.mem_append.mp hv with hv | hv
  · split at hv
    · rw [List.mem_singleton] at hv
      exact hv ▸ validArchVersion_newline h.version
    · cases hv
  · obtain ⟨provided, hmem, hprovided⟩ := List.mem_filterMap.mp hv
    split at hprovided
    · cases hprovided
      exact fun hc => parsePackageRelation_newline (h.relations provided (List.mem_append_right _ hmem))
        (mem_dependencyParts hc)
    · cases hprovided

theorem comparisonKey_injective {version wanted version' wanted' : String} (hv : '\n' ∉ version.toList)
    (hv' : '\n' ∉ version'.toList) (h : comparisonKey version wanted = comparisonKey version' wanted') :
    version = version' ∧ wanted = wanted' := by
  have hlist := congrArg String.toList h
  simp only [comparisonKey, String.toList_append] at hlist
  have hspan (cs ds : List Char) (hcs : '\n' ∉ cs) :
      (cs ++ "\n".toList ++ ds).span (fun c => decide (c ≠ '\n')) = (cs, '\n' :: ds) := by
    rw [List.append_assoc]
    refine Wire.span_append (fun c hc => decide_eq_true fun heq => hcs (heq ▸ hc)) fun c hc => ?_
    cases hc
    decide
  have hboth := (hspan _ wanted.toList hv).symm.trans ((congrArg _ hlist).trans (hspan _ _ hv'))
  simp only [Prod.mk.injEq, List.cons.injEq, true_and, String.toList_inj] at hboth
  exact hboth

/-! ## Comparisons -/

/-- What the tool prints for an order. -/
def printed : Ordering → List Char
  | .lt => "-1\n".toList
  | .eq => "0\n".toList
  | .gt => "1\n".toList

def sign : Ordering → Int
  | .lt => -1
  | .eq => 0
  | .gt => 1

/-- The tool answers for two versions, by an order that has a version equal to itself. -/
structure Answers (vercmp : Vercmp) (order : String → String → Ordering) (version wanted : String) : Prop where
  same : version = wanted → order version wanted = .eq
  prints : version ≠ wanted → vercmp version wanted = .ok (printed (order version wanted))

/-- The tool answers for what a package is asked. -/
def AnswersFor (vercmp : Vercmp) (order : String → String → Ordering) (pkg : InstalledPackage) (relation : String) :
    Prop :=
  ∀ version ∈ availableVersions pkg (dependencyParts relation).1, (dependencyParts relation).2.1 ≠ "" → version ≠ "" →
    Answers vercmp order version (dependencyParts relation).2.2

theorem parseInt_printed (o : Ordering) : parseInt (trimSpace (printed o)) = some (sign o) := by
  cases o <;> decide +kernel

theorem nativeComparison_printed {vercmp : Vercmp} {version wanted : String} {o : Ordering}
    (h : vercmp version wanted = .ok (printed o)) : nativeComparison vercmp version wanted = .ok (sign o) := by
  rw [nativeComparison, h]
  dsimp only
  rw [parseInt_printed]
  cases o <;> rfl

/-- Each comparison that is kept is one that the tool made of two different versions. -/
def Kept (vercmp : Vercmp) (comparisons : Comparisons) : Prop :=
  ∀ entry ∈ comparisons, ∃ version wanted, '\n' ∉ version.toList ∧ version ≠ wanted ∧
    entry.1 = comparisonKey version wanted ∧ nativeComparison vercmp version wanted = .ok entry.2

theorem Kept.lookup {vercmp : Vercmp} {comparisons : Comparisons} (hk : Kept vercmp comparisons)
    {version wanted : String} (hv : '\n' ∉ version.toList) {comparison : Int}
    (h : comparisons.lookup (comparisonKey version wanted) = some comparison) :
    version ≠ wanted ∧ nativeComparison vercmp version wanted = .ok comparison := by
  obtain ⟨before, after, heq, -⟩ := List.lookup_eq_some_iff.mp h
  obtain ⟨version', wanted', hv', hne, hkey, hnative⟩ := hk (comparisonKey version wanted, comparison) (by simp [heq])
  obtain ⟨rfl, rfl⟩ := comparisonKey_injective hv hv' hkey
  exact ⟨hne, hnative⟩

theorem compareKept_kept {vercmp : Vercmp} {version wanted : String} {comparisons comparisons' : Comparisons}
    {comparison : Int} (hk : Kept vercmp comparisons) (hv : '\n' ∉ version.toList)
    (h : compareKept vercmp version wanted comparisons = .ok (comparison, comparisons')) : Kept vercmp comparisons' := by
  unfold compareKept at h
  split at h
  · cases h
    exact hk
  · split at h
    · cases h
      exact hk
    · rename_i hne
      cases hnative : nativeComparison vercmp version wanted with
      | error e =>
        rw [hnative] at h
        cases h
      | ok answer =>
        rw [hnative] at h
        cases h
        intro entry hentry
        rcases List.mem_cons.mp hentry with rfl | hentry
        · exact ⟨version, wanted, hv, hne, rfl, hnative⟩
        · exact hk entry hentry

theorem compareKept_answers {vercmp : Vercmp} {order : String → String → Ordering} {version wanted : String}
    {comparisons : Comparisons} (hk : Kept vercmp comparisons) (hv : '\n' ∉ version.toList)
    (ha : Answers vercmp order version wanted) :
    ∃ comparisons', compareKept vercmp version wanted comparisons = .ok (sign (order version wanted), comparisons') := by
  unfold compareKept
  split
  · rename_i comparison hlookup
    obtain ⟨hne, hnative⟩ := hk.lookup hv hlookup
    rw [nativeComparison_printed (ha.prints hne)] at hnative
    cases hnative
    exact ⟨comparisons, rfl⟩
  · split
    · rename_i heq
      rw [ha.same heq]
      exact ⟨comparisons, rfl⟩
    · rename_i hne
      rw [nativeComparison_printed (ha.prints hne)]
      exact ⟨_, rfl⟩

/-! ## Satisfaction -/

/-- One version against an operator and a version that is wanted. -/
def VersionMeets (order : String → String → Ordering) (operator wanted version : String) : Prop :=
  operator = "" ∨ version ≠ "" ∧ operatorHolds operator (sign (order version wanted)) = true

/-- A package satisfies a relation at one of the versions that it has the name at. -/
def Satisfied (order : String → String → Ordering) (pkg : InstalledPackage) (relation : String) : Prop :=
  ∃ version ∈ availableVersions pkg (dependencyParts relation).1,
    VersionMeets order (dependencyParts relation).2.1 (dependencyParts relation).2.2 version

theorem satisfiesAny_kept {vercmp : Vercmp} {operator wanted : String} {available : List String}
    (hv : ∀ version ∈ available, '\n' ∉ version.toList) {comparisons comparisons' : Comparisons} {answer : Bool}
    (hk : Kept vercmp comparisons)
    (h : satisfiesAny vercmp operator wanted available comparisons = .ok (answer, comparisons')) :
    Kept vercmp comparisons' := by
  induction available generalizing comparisons with
  | nil =>
    cases h
    exact hk
  | cons version available ih =>
    rw [List.forall_mem_cons] at hv
    rw [satisfiesAny] at h
    split at h
    · cases h
      exact hk
    · split at h
      · exact ih hv.2 hk h
      · split at h
        · cases h
        · rename_i hcompare
          have hk' := compareKept_kept hk hv.1 hcompare
          split at h
          · cases h
            exact hk'
          · exact ih hv.2 hk' h

theorem satisfiesAny_answers {vercmp : Vercmp} {order : String → String → Ordering} {operator wanted : String}
    {available : List String} (hv : ∀ version ∈ available, '\n' ∉ version.toList)
    (ha : ∀ version ∈ available, operator ≠ "" → version ≠ "" → Answers vercmp order version wanted) {comparisons : Comparisons}
    (hk : Kept vercmp comparisons) :
    ∃ answer comparisons', satisfiesAny vercmp operator wanted available comparisons = .ok (answer, comparisons') ∧
      (answer = true ↔ ∃ version ∈ available, VersionMeets order operator wanted version) := by
  induction available generalizing comparisons with
  | nil => exact ⟨false, comparisons, rfl, by simp⟩
  | cons version available ih =>
    rw [List.forall_mem_cons] at hv ha
    rw [satisfiesAny]
    split
    · rename_i hop
      exact ⟨true, comparisons, rfl, iff_of_true rfl ⟨version, List.mem_cons_self, .inl hop⟩⟩
    · rename_i hop
      split
      · rename_i hempty
        obtain ⟨answer, comparisons', heq, hiff⟩ := ih hv.2 ha.2 hk
        refine ⟨answer, comparisons', heq, hiff.trans ?_⟩
        simp [VersionMeets, hop, hempty]
      · rename_i hne
        obtain ⟨comparisons', hcompare⟩ := compareKept_answers hk hv.1 (ha.1 hop hne)
        rw [hcompare]
        dsimp only
        split
        · rename_i hholds
          exact ⟨true, comparisons', rfl, iff_of_true rfl ⟨version, List.mem_cons_self, .inr ⟨hne, hholds⟩⟩⟩
        · rename_i hholds
          obtain ⟨answer, comparisons'', heq, hiff⟩ := ih hv.2 ha.2 (compareKept_kept hk hv.1 hcompare)
          refine ⟨answer, comparisons'', heq, hiff.trans ?_⟩
          simp [VersionMeets, hop, hholds]

theorem satisfies_kept {vercmp : Vercmp} {pkg : InstalledPackage} (hp : pkg.Admitted) {relation : String}
    {comparisons comparisons' : Comparisons} {answer : Bool} (hk : Kept vercmp comparisons)
    (h : satisfies vercmp pkg relation comparisons = .ok (answer, comparisons')) : Kept vercmp comparisons' :=
  satisfiesAny_kept (fun _ hv => hp.newline hv) hk h

theorem satisfies_answers {vercmp : Vercmp} {order : String → String → Ordering} {pkg : InstalledPackage}
    (hp : pkg.Admitted) {relation : String} (ha : AnswersFor vercmp order pkg relation) {comparisons : Comparisons}
    (hk : Kept vercmp comparisons) :
    ∃ answer comparisons', satisfies vercmp pkg relation comparisons = .ok (answer, comparisons') ∧
      Kept vercmp comparisons' ∧ (answer = true ↔ Satisfied order pkg relation) := by
  obtain ⟨answer, comparisons', heq, hiff⟩ := satisfiesAny_answers (fun _ hv => hp.newline hv) ha hk
  exact ⟨answer, comparisons', heq, satisfies_kept hp hk heq, hiff⟩

/-- The comparisons that questions about admitted packages have left. -/
inductive Asked (vercmp : Vercmp) : Comparisons → Prop where
  | nothing : Asked vercmp []
  | satisfies {pkg : InstalledPackage} {relation : String} {comparisons comparisons' : Comparisons} {answer : Bool}
      (h : Asked vercmp comparisons) (hp : pkg.Admitted)
      (hs : satisfies vercmp pkg relation comparisons = .ok (answer, comparisons')) : Asked vercmp comparisons'

theorem Asked.kept {vercmp : Vercmp} {comparisons : Comparisons} (h : Asked vercmp comparisons) :
    Kept vercmp comparisons := by
  induction h with
  | nothing =>
    intro entry hentry
    cases hentry
  | satisfies _ hp hs ih => exact satisfies_kept hp ih hs

/-! ## One relation -/

/-- The packages that a relation brings in, against what was there. -/
structure Follows (order : String → String → Ordering) (relation : String) (providers : List InstalledPackage)
    (s s' : Following) : Prop where
  found : s'.found = true ↔ s.found = true ∨ ∃ pkg ∈ providers, Satisfied order pkg relation
  kept : ∀ name ∈ s.result, name ∈ s'.result
  joined : ∀ pkg ∈ providers, Satisfied order pkg relation → pkg.name ∈ s'.result
  queue : ∀ r ∈ s.queue, r ∈ s'.queue
  result : ∀ name ∈ s'.result, name ∈ s.result ∨
    ∃ pkg ∈ providers, Satisfied order pkg relation ∧ pkg.name = name ∧ ∀ r ∈ pkg.depends, r ∈ s'.queue
  queued : ∀ r ∈ s'.queue, r ∈ s.queue ∨ ∃ pkg ∈ providers, Satisfied order pkg relation ∧ r ∈ pkg.depends
  nodup : s.result.Nodup → s'.result.Nodup

theorem Follows.skip {order : String → String → Ordering} {relation : String} {pkg : InstalledPackage}
    {providers : List InstalledPackage} {s s' : Following} (h : Follows order relation providers s s')
    (hno : ¬Satisfied order pkg relation) : Follows order relation (pkg :: providers) s s' where
  found := by simp [h.found, hno]
  kept := h.kept
  joined := List.forall_mem_cons.mpr ⟨fun hyes => absurd hyes hno, h.joined⟩
  queue := h.queue
  result name hname := (h.result name hname).imp_right fun ⟨p, hp, hrest⟩ => ⟨p, List.mem_cons_of_mem _ hp, hrest⟩
  queued r hr := (h.queued r hr).imp_right fun ⟨p, hp, hrest⟩ => ⟨p, List.mem_cons_of_mem _ hp, hrest⟩
  nodup := h.nodup

/-- A package that satisfies the relation and was there before. -/
theorem Follows.again {order : String → String → Ordering} {relation : String} {pkg : InstalledPackage}
    {providers : List InstalledPackage} {s s' : Following} {comparisons : Comparisons}
    (h : Follows order relation providers ⟨s.result, s.queue, true, comparisons⟩ s')
    (hyes : Satisfied order pkg relation) (hmem : pkg.name ∈ s.result) :
    Follows order relation (pkg :: providers) s s' where
  found := iff_of_true (h.found.mpr (.inl rfl)) (.inr ⟨pkg, List.mem_cons_self, hyes⟩)
  kept := h.kept
  joined := List.forall_mem_cons.mpr ⟨fun _ => h.kept _ hmem, h.joined⟩
  queue := h.queue
  result name hname := (h.result name hname).imp_right fun ⟨p, hp, hrest⟩ => ⟨p, List.mem_cons_of_mem _ hp, hrest⟩
  queued r hr := (h.queued r hr).imp_right fun ⟨p, hp, hrest⟩ => ⟨p, List.mem_cons_of_mem _ hp, hrest⟩
  nodup := h.nodup

/-- A package that satisfies the relation and joins. -/
theorem Follows.join {order : String → String → Ordering} {relation : String} {pkg : InstalledPackage}
    {providers : List InstalledPackage} {s s' : Following} {comparisons : Comparisons}
    (h : Follows order relation providers ⟨s.result ++ [pkg.name], s.queue ++ pkg.depends, true, comparisons⟩ s')
    (hyes : Satisfied order pkg relation) (hnew : pkg.name ∉ s.result) :
    Follows order relation (pkg :: providers) s s' where
  found := iff_of_true (h.found.mpr (.inl rfl)) (.inr ⟨pkg, List.mem_cons_self, hyes⟩)
  kept name hname := h.kept name (List.mem_append_left _ hname)
  joined := List.forall_mem_cons.mpr ⟨fun _ => h.kept _ (by simp), h.joined⟩
  queue r hr := h.queue r (List.mem_append_left _ hr)
  result := by
    intro name hname
    rcases h.result name hname with hname | ⟨p, hp, hrest⟩
    · rcases List.mem_append.mp hname with hname | hname
      · exact .inl hname
      · exact .inr ⟨pkg, List.mem_cons_self, hyes, (List.mem_singleton.mp hname).symm,
          fun r hr => h.queue r (List.mem_append_right _ hr)⟩
    · exact .inr ⟨p, List.mem_cons_of_mem _ hp, hrest⟩
  queued := by
    intro r hr
    rcases h.queued r hr with hr | ⟨p, hp, hrest⟩
    · rcases List.mem_append.mp hr with hr | hr
      · exact .inl hr
      · exact .inr ⟨pkg, List.mem_cons_self, hyes, hr⟩
    · exact .inr ⟨p, List.mem_cons_of_mem _ hp, hrest⟩
  nodup hn := h.nodup (List.nodup_append.mpr ⟨hn, List.nodup_singleton _, by
    intro a ha b hb hab
    rw [List.mem_singleton] at hb
    exact hnew (hb ▸ hab ▸ ha)⟩)

theorem follow_answers {vercmp : Vercmp} {order : String → String → Ordering} {relation : String}
    {providers : List InstalledPackage} (hp : ∀ pkg ∈ providers, pkg.Admitted)
    (ha : ∀ pkg ∈ providers, AnswersFor vercmp order pkg relation) {s : Following} (hk : Kept vercmp s.comparisons) :
    ∃ s', follow vercmp relation providers s = .ok s' ∧ Kept vercmp s'.comparisons ∧
      Follows order relation providers s s' := by
  induction providers generalizing s with
  | nil =>
    exact ⟨s, rfl, hk, by simp, fun _ h => h, by simp, fun _ h => h, fun _ h => .inl h, fun _ h => .inl h, id⟩
  | cons pkg providers ih =>
    rw [List.forall_mem_cons] at hp ha
    obtain ⟨answer, comparisons, heq, hkept, hiff⟩ := satisfies_answers hp.1 ha.1 hk
    rw [follow, heq]
    cases answer with
    | false =>
      obtain ⟨s', hs', hk', hfollows⟩ := ih hp.2 ha.2 (s := { s with comparisons }) hkept
      have hskip : Follows order relation providers s s' :=
        ⟨hfollows.found, hfollows.kept, hfollows.joined, hfollows.queue, hfollows.result, hfollows.queued, hfollows.nodup⟩
      exact ⟨s', hs', hk', hskip.skip fun hyes => Bool.false_ne_true (hiff.mpr hyes)⟩
    | true =>
      have hyes := hiff.mp rfl
      dsimp only
      split
      · rename_i hmem
        obtain ⟨s', hs', hk', hfollows⟩ := ih hp.2 ha.2 (s := { s with found := true, comparisons }) hkept
        exact ⟨s', hs', hk', hfollows.again hyes hmem⟩
      · rename_i hnew
        obtain ⟨s', hs', hk', hfollows⟩ := ih hp.2 ha.2
          (s := ⟨s.result ++ [pkg.name], s.queue ++ pkg.depends, true, comparisons⟩) hkept
        exact ⟨s', hs', hk', hfollows.join hyes hnew⟩

/-! ## The least set -/

/-- A set that has what satisfies a root relation, or a dependency of a member. -/
def Closed (order : String → String → Ordering) (installed : List InstalledPackage) (roots : List String)
    (members : Set InstalledPackage) : Prop :=
  ∀ pkg ∈ installed, ∀ relation, (relation ∈ roots ∨ ∃ p ∈ members, relation ∈ p.depends) →
    Satisfied order pkg relation → pkg ∈ members

/-- The packages of a list of names. -/
def named (installed : List InstalledPackage) (names : List String) : Set InstalledPackage :=
  {pkg | pkg ∈ installed ∧ pkg.name ∈ names}

/-- A relation that is in every set of relations with the roots and the dependencies of what satisfies them. -/
inductive Needed (order : String → String → Ordering) (installed : List InstalledPackage) (roots : List String) :
    String → Prop where
  | root {relation : String} (h : relation ∈ roots) : Needed order installed roots relation
  | depend {pkg : InstalledPackage} {relation wanted : String} (h : Needed order installed roots relation)
      (hp : pkg ∈ installed) (hs : Satisfied order pkg relation) (hw : wanted ∈ pkg.depends) :
      Needed order installed roots wanted

/-- Whatever is closed has what satisfies a relation that is needed. -/
theorem Closed.needed {order : String → String → Ordering} {installed : List InstalledPackage} {roots : List String}
    {members : Set InstalledPackage} (hc : Closed order installed roots members) {relation : String}
    (h : Needed order installed roots relation) {pkg : InstalledPackage} (hp : pkg ∈ installed)
    (hs : Satisfied order pkg relation) : pkg ∈ members := by
  induction h generalizing pkg with
  | root h => exact hc pkg hp _ (.inl h) hs
  | depend _ hq hsat hw ih => exact hc pkg hp _ (.inr ⟨_, ih hq hsat, hw⟩) hs

/-- What the loop keeps, of the result, the relations that were seen, those that are missing and the queue. -/
structure Closing (order : String → String → Ordering) (installed : List InstalledPackage) (roots result seen missing
    queue : List String) : Prop where
  rooted : ∀ r ∈ roots, r ∈ queue ∨ r ∈ seen
  needed : ∀ r, r ∈ queue ∨ r ∈ seen → Needed order installed roots r
  joined : ∀ name ∈ result, ∃ pkg ∈ installed, pkg.name = name ∧
    (∃ r, Needed order installed roots r ∧ Satisfied order pkg r) ∧ ∀ r ∈ pkg.depends, r ∈ queue ∨ r ∈ seen
  satisfied : ∀ r ∈ seen, ∀ pkg ∈ installed, Satisfied order pkg r → pkg.name ∈ result
  unsatisfied : ∀ r, r ∈ missing ↔ r ∈ seen ∧ ∀ pkg ∈ installed, ¬Satisfied order pkg r
  nodup : missing.Nodup
  names : result.Nodup

/-- A relation is satisfied by its providers alone. -/
theorem Inventory.provider {packages : RuntimePackages} (hi : Inventory packages)
    {order : String → String → Ordering} {pkg : InstalledPackage} {relation : String} (hp : pkg ∈ packages.packages)
    (hs : Satisfied order pkg relation) : pkg ∈ packages.providersOf (dependencyParts relation).1 := by
  obtain ⟨version, hv, -⟩ := hs
  rw [mem_providersOf, hi.providers]
  refine ⟨hp, ?_⟩
  by_cases hown : (dependencyParts relation).1 = pkg.name
  · exact hown ▸ List.mem_cons_self
  refine List.mem_cons_of_mem _ (List.mem_filter.mpr ⟨?_, by simpa using hown⟩)
  rcases List.mem_append.mp hv with hv | hv
  · rw [if_neg hown] at hv
    cases hv
  · obtain ⟨provided, hmem, hprovided⟩ := List.mem_filterMap.mp hv
    split at hprovided
    · rename_i hname
      exact List.mem_map.mpr ⟨provided, hmem, hname⟩
    · cases hprovided

theorem Inventory.of_provider {packages : RuntimePackages} (hi : Inventory packages) {pkg : InstalledPackage}
    {name : String} (h : pkg ∈ packages.providersOf name) : pkg ∈ packages.packages :=
  ((hi.providers name pkg).mp (mem_providersOf.mp h)).1

section
variable {order : String → String → Ordering} {packages : RuntimePackages} {roots result seen missing queue : List String}
  {relation : String}

theorem Closing.skip (hc : Closing order packages.packages roots result seen missing (relation :: queue))
    (hseen : relation ∈ seen) : Closing order packages.packages roots result seen missing queue := by
  have hdrop : ∀ r, r ∈ relation :: queue ∨ r ∈ seen → r ∈ queue ∨ r ∈ seen := by
    rintro r (hr | hr)
    · rcases List.mem_cons.mp hr with rfl | hr
      · exact .inr hseen
      · exact .inl hr
    · exact .inr hr
  refine ⟨fun r hr => hdrop r (hc.rooted r hr), fun r hr => hc.needed r (hr.imp_left (List.mem_cons_of_mem _)), ?_,
    hc.satisfied, hc.unsatisfied, hc.nodup, hc.names⟩
  intro name hname
  obtain ⟨pkg, hp, heq, hneed, hdepends⟩ := hc.joined name hname
  exact ⟨pkg, hp, heq, hneed, fun r hr => hdrop r (hdepends r hr)⟩

/-- The step of the loop. -/
theorem Closing.follow (hi : Inventory packages)
    (hc : Closing order packages.packages roots result seen missing (relation :: queue)) (hnew : relation ∉ seen)
    {comparisons : Comparisons} {s : Following}
    (hs : Follows order relation (packages.providersOf (dependencyParts relation).1) ⟨result, queue, false, comparisons⟩ s) :
    Closing order packages.packages roots s.result (relation :: seen) (if s.found then missing else missing ++ [relation])
      s.queue := by
  have hneeded : Needed order packages.packages roots relation := hc.needed relation (.inl List.mem_cons_self)
  have hmove : ∀ r, r ∈ relation :: queue ∨ r ∈ seen → r ∈ s.queue ∨ r ∈ relation :: seen := by
    rintro r (hr | hr)
    · rcases List.mem_cons.mp hr with rfl | hr
      · exact .inr List.mem_cons_self
      · exact .inl (hs.queue r hr)
    · exact .inr (List.mem_cons_of_mem _ hr)
  have hfound : s.found = true ↔ ∃ pkg ∈ packages.packages, Satisfied order pkg relation := by
    rw [hs.found]
    constructor
    · rintro (h | ⟨pkg, hp, hsat⟩)
      · cases h
      · exact ⟨pkg, hi.of_provider hp, hsat⟩
    · rintro ⟨pkg, hp, hsat⟩
      exact .inr ⟨pkg, hi.provider hp hsat, hsat⟩
  refine ⟨fun r hr => hmove r (hc.rooted r hr), ?_, ?_, ?_, ?_, ?_, hs.nodup hc.names⟩
  · rintro r (hr | hr)
    · rcases hs.queued r hr with hr | ⟨pkg, hp, hsat, hdepends⟩
      · exact hc.needed r (.inl (List.mem_cons_of_mem _ hr))
      · exact .depend hneeded (hi.of_provider hp) hsat hdepends
    · rcases List.mem_cons.mp hr with rfl | hr
      · exact hneeded
      · exact hc.needed r (.inr hr)
  · intro name hname
    rcases hs.result name hname with hname | ⟨pkg, hp, hsat, heq, hdepends⟩
    · obtain ⟨pkg, hp, heq, hneed, hdepends⟩ := hc.joined name hname
      exact ⟨pkg, hp, heq, hneed, fun r hr => hmove r (hdepends r hr)⟩
    · exact ⟨pkg, hi.of_provider hp, heq, ⟨relation, hneeded, hsat⟩, fun r hr => .inl (hdepends r hr)⟩
  · intro r hr pkg hp hsat
    rcases List.mem_cons.mp hr with rfl | hr
    · exact hs.joined pkg (hi.provider hp hsat) hsat
    · exact hs.kept _ (hc.satisfied r hr pkg hp hsat)
  · intro r
    by_cases hf : s.found = true
    · rw [if_pos hf, hc.unsatisfied, List.mem_cons]
      constructor
      · rintro ⟨hr, hno⟩
        exact ⟨.inr hr, hno⟩
      · rintro ⟨rfl | hr, hno⟩
        · obtain ⟨pkg, hp, hsat⟩ := hfound.mp hf
          exact absurd hsat (hno pkg hp)
        · exact ⟨hr, hno⟩
    · rw [if_neg hf, List.mem_append, hc.unsatisfied, List.mem_singleton, List.mem_cons]
      constructor
      · rintro (⟨hr, hno⟩ | rfl)
        · exact ⟨.inr hr, hno⟩
        · exact ⟨.inl rfl, fun pkg hp hsat => hf (hfound.mpr ⟨pkg, hp, hsat⟩)⟩
      · rintro ⟨rfl | hr, hno⟩
        · exact .inr rfl
        · exact .inl ⟨hr, hno⟩
  · split
    · exact hc.nodup
    · refine List.nodup_append.mpr ⟨hc.nodup, List.nodup_singleton _, ?_⟩
      intro a ha b hb hab
      rw [List.mem_singleton] at hb
      exact hnew (hb ▸ hab ▸ ((hc.unsatisfied a).mp ha).1)

end

/-- The loop comes to an end, with all that it keeps and an empty queue. -/
theorem closureFrom_closing {vercmp : Vercmp} {order : String → String → Ordering} {packages : RuntimePackages}
    (hi : Inventory packages) {roots : List String}
    (ha : ∀ relation, Needed order packages.packages roots relation → ∀ pkg ∈ packages.packages,
      AnswersFor vercmp order pkg relation) {result seen missing queue : List String} {comparisons : Comparisons}
    (hk : Kept vercmp comparisons) (hc : Closing order packages.packages roots result seen missing queue) :
    ∃ result' seen' missing' comparisons', closureFrom vercmp packages result seen missing queue comparisons =
        .ok (result', missing', comparisons') ∧
      Closing order packages.packages roots result' seen' missing' [] := by
  induction result, seen, missing, queue, comparisons using closureFrom.induct vercmp packages with
  | case1 result seen missing comparisons => exact ⟨result, seen, missing, comparisons, by rw [closureFrom], hc⟩
  | case2 result seen missing comparisons relation queue hseen ih =>
    rw [closureFrom, if_pos hseen]
    exact ih hk (hc.skip hseen)
  | case3 result seen missing comparisons relation queue hnew e hfollow =>
    have hneeded := hc.needed relation (.inl List.mem_cons_self)
    obtain ⟨s, hs, -⟩ := follow_answers (s := ⟨result, queue, false, comparisons⟩)
      (fun pkg hp => hi.admitted pkg (hi.of_provider hp)) (fun pkg hp => ha relation hneeded pkg (hi.of_provider hp)) hk
    rw [hfollow] at hs
    cases hs
  | case4 result seen missing comparisons relation queue hnew s hfollow ih =>
    have hneeded := hc.needed relation (.inl List.mem_cons_self)
    obtain ⟨s', hs', hk', hfollows⟩ := follow_answers (s := ⟨result, queue, false, comparisons⟩)
      (fun pkg hp => hi.admitted pkg (hi.of_provider hp)) (fun pkg hp => ha relation hneeded pkg (hi.of_provider hp)) hk
    rw [hfollow] at hs'
    cases hs'
    obtain ⟨result', seen', missing', comparisons', heq, hclosing⟩ := ih hk' (hc.follow hi hnew hfollows)
    refine ⟨result', seen', missing', comparisons', ?_, hclosing⟩
    rw [closureFrom, if_neg hnew]
    split
    · rename_i hother
      rw [hfollow] at hother
      cases hother
    · rename_i hother
      rw [hfollow] at hother
      cases hother
      exact heq

/-! ## Results -/

/-- What a result says: the least closed set, and the relations that its members or the roots name and none satisfies. -/
structure ClosureOf (order : String → String → Ordering) (installed : List InstalledPackage) (roots result missing :
    List String) : Prop where
  least : IsLeast {members | Closed order installed roots members} (named installed result)
  known : ∀ name ∈ result, ∃ pkg ∈ installed, pkg.name = name
  unsatisfied : ∀ r, r ∈ missing ↔ (r ∈ roots ∨ ∃ pkg ∈ named installed result, r ∈ pkg.depends) ∧
    ∀ pkg ∈ installed, ¬Satisfied order pkg r
  names : result.Nodup
  nodup : missing.Nodup

theorem Closing.closureOf {order : String → String → Ordering} {packages : RuntimePackages} (hi : Inventory packages)
    {roots result seen missing : List String} (hc : Closing order packages.packages roots result seen missing []) :
    ClosureOf order packages.packages roots result missing := by
  have hseen : ∀ r, r ∈ roots ∨ (∃ pkg ∈ named packages.packages result, r ∈ pkg.depends) → r ∈ seen := by
    rintro r (hr | ⟨pkg, ⟨hp, hname⟩, hr⟩)
    · exact (hc.rooted r hr).resolve_left List.not_mem_nil
    · obtain ⟨pkg', hp', heq, -, hdepends⟩ := hc.joined pkg.name hname
      rw [hi.eq_of_name hp' hp heq] at hdepends
      exact (hdepends r hr).resolve_left List.not_mem_nil
  have hclosed : Closed order packages.packages roots (named packages.packages result) := fun pkg hp r hr hsat =>
    ⟨hp, hc.satisfied r (hseen r hr) pkg hp hsat⟩
  have hback : ∀ r, Needed order packages.packages roots r →
      r ∈ roots ∨ ∃ pkg ∈ named packages.packages result, r ∈ pkg.depends := by
    intro r hr
    cases hr with
    | root hr => exact .inl hr
    | depend hneeded hp hsat hw => exact .inr ⟨_, hclosed.needed hneeded hp hsat, hw⟩
  refine ⟨⟨hclosed, ?_⟩, ?_, ?_, hc.names, hc.nodup⟩
  · rintro members hmembers pkg ⟨hp, hname⟩
    obtain ⟨pkg', hp', heq, ⟨r, hneeded, hsat⟩, -⟩ := hc.joined pkg.name hname
    rw [hi.eq_of_name hp' hp heq] at hsat
    exact Closed.needed hmembers hneeded hp hsat
  · intro name hname
    obtain ⟨pkg, hp, heq, -⟩ := hc.joined name hname
    exact ⟨pkg, hp, heq⟩
  · intro r
    rw [hc.unsatisfied]
    refine and_congr_left fun _ => ⟨fun hr => hback r (hc.needed r (.inr hr)), hseen r⟩

/-- Two results for the same packages have the same names, and the same relations are missing. -/
theorem ClosureOf.perm {order : String → String → Ordering} {installed installed' : List InstalledPackage}
    (hperm : installed'.Perm installed) {roots result missing result' missing' : List String}
    (h : ClosureOf order installed roots result missing) (h' : ClosureOf order installed' roots result' missing') :
    result'.Perm result ∧ missing'.Perm missing := by
  have hmem : ∀ pkg, pkg ∈ installed' ↔ pkg ∈ installed := fun pkg => hperm.mem_iff
  have hclosed : {members | Closed order installed' roots members} = {members | Closed order installed roots members} := by
    ext members
    simp only [Closed, hmem, Set.mem_ofPred_eq]
  have hnamed : named installed' result' = named installed result := by
    have hleast := h'.least
    rw [hclosed] at hleast
    exact hleast.unique h.least
  constructor
  · refine (List.perm_ext_iff_of_nodup h'.names h.names).mpr fun name => ⟨fun hname => ?_, fun hname => ?_⟩
    · obtain ⟨pkg, hp, rfl⟩ := h'.known name hname
      have hin : pkg ∈ named installed' result' := ⟨hp, hname⟩
      rw [hnamed] at hin
      exact hin.2
    · obtain ⟨pkg, hp, rfl⟩ := h.known name hname
      have hin : pkg ∈ named installed result := ⟨hp, hname⟩
      rw [← hnamed] at hin
      exact hin.2
  · refine (List.perm_ext_iff_of_nodup h'.nodup h.nodup).mpr fun r => ?_
    rw [h'.unsatisfied, h.unsatisfied, hnamed]
    simp only [hmem]

/-- Over an inventory that answers, the closure ends with the least closed set. -/
theorem Inventory.closure {vercmp : Vercmp} {order : String → String → Ordering} {packages : RuntimePackages}
    (hi : Inventory packages) {roots : List String}
    (ha : ∀ relation, Needed order packages.packages roots relation → ∀ pkg ∈ packages.packages,
      AnswersFor vercmp order pkg relation) {comparisons : Comparisons} (hk : Kept vercmp comparisons) :
    ∃ result missing comparisons', Worker.closure vercmp packages roots comparisons = .ok (result, missing, comparisons') ∧
      ClosureOf order packages.packages roots result missing := by
  have hstart : Closing order packages.packages roots [] [] [] roots :=
    ⟨fun r hr => .inl hr, fun r hr => .root (hr.resolve_right List.not_mem_nil), by simp, by simp, by simp, by simp,
      by simp⟩
  obtain ⟨result, seen, missing, comparisons', heq, hclosing⟩ := closureFrom_closing hi ha hk hstart
  exact ⟨result, missing, comparisons', heq, hclosing.closureOf hi⟩

/-- The order in which a database lists its packages and their providers. -/
theorem Inventory.perm {packages other : RuntimePackages} (hi : Inventory packages)
    (hpackages : other.packages.Perm packages.packages) (hproviders : other.providers.Perm packages.providers) :
    Inventory other where
  admitted pkg hp := hi.admitted pkg (hpackages.mem_iff.mp hp)
  nodup := (hpackages.map _).nodup_iff.mpr hi.nodup
  providers name pkg := by rw [hproviders.mem_iff, hpackages.mem_iff, hi.providers]

/-- Over every database that is accepted, with a tool that answers, the closure ends with the least closed set of
packages and the relations that none satisfies, whatever the order of the providers. -/
theorem closure_least {vercmp : Vercmp} {order : String → String → Ordering} {entries : Option (List DatabaseEntry)}
    {packages : RuntimePackages} (h : installedRuntimePackages entries = .ok packages) {roots : List String}
    {comparisons : Comparisons} (hasked : Asked vercmp comparisons)
    (ha : ∀ relation, Needed order packages.packages roots relation → ∀ pkg ∈ packages.packages,
      AnswersFor vercmp order pkg relation) :
    ∃ result missing comparisons', closure vercmp packages roots comparisons = .ok (result, missing, comparisons') ∧
      ClosureOf order packages.packages roots result missing ∧
      ∀ other : RuntimePackages, other.packages.Perm packages.packages → other.providers.Perm packages.providers →
        ∃ result' missing' comparisons'', closure vercmp other roots comparisons =
          .ok (result', missing', comparisons'') ∧ result'.Perm result ∧ missing'.Perm missing := by
  have hi := installedRuntimePackages_inventory h
  obtain ⟨result, missing, comparisons', heq, hclosure⟩ := hi.closure ha hasked.kept
  refine ⟨result, missing, comparisons', heq, hclosure, fun other hpackages hproviders => ?_⟩
  have hneeded : ∀ relation, Needed order other.packages roots relation → Needed order packages.packages roots relation := by
    intro relation hr
    induction hr with
    | root hr => exact .root hr
    | depend _ hp hsat hw ih => exact .depend ih (hpackages.mem_iff.mp hp) hsat hw
  obtain ⟨result', missing', comparisons'', heq', hclosure'⟩ := (hi.perm hpackages hproviders).closure
    (fun relation hr pkg hp => ha relation (hneeded relation hr) pkg (hpackages.mem_iff.mp hp)) hasked.kept
  exact ⟨result', missing', comparisons'', heq', hclosure.perm hpackages hclosure'⟩

/-- The order of pacman, in which a version is equal to itself. -/
def alpmOrder (version wanted : String) : Ordering :=
  if version = wanted then .eq else Arch.vercmp version.toList wanted.toList

def alpmVercmp : Vercmp := fun version wanted => .ok (printed (alpmOrder version wanted))

theorem alpmVercmp_answers (version wanted : String) : Answers alpmVercmp alpmOrder version wanted :=
  ⟨fun h => if_pos h, fun _ => rfl⟩

/-- Two packages that depend on each other; one provides a name at another version. -/
def sampleDatabase : List DatabaseEntry := [
  ⟨true, some (encode "%NAME%\nbar\n\n%VERSION%\n1-1\n\n%DEPENDS%\nfoo>=2\n".toList), some (encode "%FILES%\nusr/\n".toList)⟩,
  ⟨false, none, none⟩,
  ⟨true, some (encode "%NAME%\nfoo\n\n%VERSION%\n1-2\n\n%DEPENDS%\nbar\nbaz\n\n%PROVIDES%\nfoo=2\n".toList),
    some (encode "%FILES%\nusr/bin/foo\n".toList)⟩]

def sampleBar : InstalledPackage := ⟨"bar", "1-1", ["foo>=2"], []⟩

def sampleFoo : InstalledPackage := ⟨"foo", "1-2", ["bar", "baz"], ["foo=2"]⟩

def samplePackages : RuntimePackages := ⟨[sampleBar, sampleFoo], [("bar", sampleBar), ("foo", sampleFoo)], 2⟩

theorem sampleDatabase_read : installedRuntimePackages (some sampleDatabase) = .ok samplePackages := by
  decide +kernel

/-- The two packages of a cycle, of which one names a relation that none satisfies. -/
theorem sampleDatabase_closure :
    ∃ result missing comparisons', closure alpmVercmp samplePackages ["bar"] [] = .ok (result, missing, comparisons') ∧
      ClosureOf alpmOrder samplePackages.packages ["bar"] result missing ∧
      ∀ other : RuntimePackages, other.packages.Perm samplePackages.packages →
        other.providers.Perm samplePackages.providers →
        ∃ result' missing' comparisons'', closure alpmVercmp other ["bar"] [] = .ok (result', missing', comparisons'') ∧
          result'.Perm result ∧ missing'.Perm missing :=
  closure_least sampleDatabase_read .nothing fun _ _ _ _ version _ _ _ => alpmVercmp_answers version _

end Omapkg.Worker
