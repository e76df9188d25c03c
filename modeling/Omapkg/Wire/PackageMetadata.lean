import Omapkg.Lib.Fallible
import Omapkg.Server.OutputMetadata
import Omapkg.Wire.Relations
import Omapkg.Worker.PackageMetadata
/-!
# Package metadata of both sides

What the worker takes of a `.PKGINFO` against what the server takes of the
worker's report. Reading keeps what each line was checked for
(`parsePackageMetadata_taken`), and the server makes the same checks again.
-/

namespace Omapkg.Wire

open Json Utf Omapkg.Server
open Omapkg.Server.Arch (isWord isRelationChar isPackageName isSoname parseArchPackageVersion isRelation ExpectedOutput
  OutputMetadata parseOutputMetadata relationList relationList_some textArray_map naturalOf_ofNat)
open Omapkg.Worker (parsePackageVersion parsePackageRelation)

/-! ## What the worker reads -/

theorem checkRelationName_value {value name r : List Char} {o : Option (List Char)} {allowSoname : Bool}
    (h : Worker.checkRelationName value name o allowSoname = .ok r) : r = value := by
  unfold Worker.checkRelationName at h
  repeat' split at h
  all_goals first
    | cases h; rfl
    | cases h

/-- A relation is kept as it was read. -/
theorem parsePackageRelation_value {value r : List Char} {provides allowSoname : Bool}
    (h : parsePackageRelation value provides allowSoname = .ok r) : r = value := by
  unfold parsePackageRelation at h
  obtain ⟨-, h⟩ := Fallible.guard_ok.mp h
  dsimp only at h
  unfold Worker.checkRelation at h
  split at h
  · obtain ⟨-, h⟩ := Fallible.guard_ok.mp h
    obtain ⟨-, h⟩ := Fallible.guard_ok.mp h
    obtain ⟨-, h⟩ := Fallible.guard_ok.mp h
    exact checkRelationName_value h
  · exact checkRelationName_value h

/-- A list of relations that the worker took. -/
def Listed (provides allowSoname : Bool) (values : List String) : Prop :=
  values.length ≤ 256 ∧ ∀ r ∈ values, parsePackageRelation r.toList provides allowSoname = .ok r.toList

theorem addRelation_listed {key : String} {value : List Char} {provides allowSoname : Bool}
    {values values' : List String}
    (h : Worker.addRelation key value provides allowSoname values = .ok values')
    (hl : Listed provides allowSoname values) : Listed provides allowSoname values' := by
  unfold Worker.addRelation at h
  split at h
  · cases h
  · rename_i relation hrel
    obtain ⟨hlen, h⟩ := Fallible.guard_ok.mp h
    cases h
    rw [Worker.maxPackageRelations, Nat.not_le] at hlen
    refine ⟨by rw [List.length_append, List.length_singleton]; omega, fun r hr => ?_⟩
    rcases List.mem_append.mp hr with hr | hr
    · exact hl.2 r hr
    · rw [List.mem_singleton] at hr
      have heq := parsePackageRelation_value hrel
      rw [hr, String.toList_ofList, heq]
      rw [heq] at hrel
      exact hrel

/-- What is true of the metadata while lines are read. -/
structure Kept (m : Worker.PackageMetadata) (seen : List String) : Prop where
  name : "pkgname" ∈ seen → isPackageName m.name.toList = true
  version : "pkgver" ∈ seen → parsePackageVersion m.fullVersion.toList = true
  depends : Listed false true m.depends
  provides : Listed true true m.provides
  conflicts : Listed false false m.conflicts
  replaces : Listed false false m.replaces

theorem map_ok {ε α β : Type} {f : α → β} {x : Except ε α} {b : β} (h : x.map f = .ok b) :
    ∃ a, x = .ok a ∧ b = f a := by
  cases x with
  | error e => cases h
  | ok a =>
    cases h
    exact ⟨a, rfl, rfl⟩

theorem setField_kept {key : String} {value : List Char} {m m' : Worker.PackageMetadata} {seen : List String}
    (h : Worker.setField key value m = .ok m') (hk : Kept m seen) : Kept m' (key :: seen) := by
  obtain ⟨hname, hversion, hdepends, hprovides, hconflicts, hreplaces⟩ := hk
  have hother : ∀ {field : String}, key ≠ field → field ∈ key :: seen → field ∈ seen := fun hne hmem =>
    (List.mem_cons.mp hmem).resolve_left fun he => hne he.symm
  unfold Worker.setField at h
  split at h
  · rename_i hkey
    subst hkey
    split at h
    · cases h
      exact ⟨fun hm => hname (hother (by decide) hm), fun hm => hversion (hother (by decide) hm), hdepends, hprovides,
        hconflicts, hreplaces⟩
    · cases h
  split at h
  · rename_i hkey
    subst hkey
    split at h
    · rename_i hvalid
      cases h
      exact ⟨fun _ => by rw [String.toList_ofList]; exact hvalid, fun hm => hversion (hother (by decide) hm), hdepends,
        hprovides, hconflicts, hreplaces⟩
    · cases h
  rename_i hnotname
  split at h
  · rename_i hkey
    subst hkey
    split at h
    · rename_i hvalid
      cases h
      exact ⟨fun hm => hname (hother (by decide) hm), fun _ => by rw [String.toList_ofList]; exact hvalid, hdepends,
        hprovides, hconflicts, hreplaces⟩
    · cases h
  rename_i hnotversion
  -- the other fields leave the name and the version
  have hname' : "pkgname" ∈ key :: seen → isPackageName m.name.toList = true := fun hm => hname (hother hnotname hm)
  have hversion' : "pkgver" ∈ key :: seen → parsePackageVersion m.fullVersion.toList = true := fun hm =>
    hversion (hother hnotversion hm)
  split at h
  · cases h
    exact ⟨hname', hversion', hdepends, hprovides, hconflicts, hreplaces⟩
  split at h
  · split at h
    · cases h
    · split at h
      · cases h
      · cases h
        exact ⟨hname', hversion', hdepends, hprovides, hconflicts, hreplaces⟩
  split at h
  · obtain ⟨values, hadd, rfl⟩ := map_ok h
    exact ⟨hname', hversion', addRelation_listed hadd hdepends, hprovides, hconflicts, hreplaces⟩
  split at h
  · obtain ⟨values, hadd, rfl⟩ := map_ok h
    exact ⟨hname', hversion', hdepends, addRelation_listed hadd hprovides, hconflicts, hreplaces⟩
  split at h
  · obtain ⟨values, hadd, rfl⟩ := map_ok h
    exact ⟨hname', hversion', hdepends, hprovides, addRelation_listed hadd hconflicts, hreplaces⟩
  split at h
  · obtain ⟨values, hadd, rfl⟩ := map_ok h
    exact ⟨hname', hversion', hdepends, hprovides, hconflicts, addRelation_listed hadd hreplaces⟩
  · cases h
    exact ⟨hname', hversion', hdepends, hprovides, hconflicts, hreplaces⟩

theorem readLine_kept {state state' : Worker.Reading} {line : List Char} (h : Worker.readLine state line = .ok state')
    (hk : Kept state.1 state.2) : Kept state'.1 state'.2 := by
  unfold Worker.readLine at h
  dsimp only at h
  split at h
  · cases h
    exact hk
  split at h
  · cases h
    exact hk
  split at h
  · split at h
    · cases h
    · obtain ⟨m, hset, rfl⟩ := map_ok h
      exact setField_kept hset hk
  · obtain ⟨m, hset, rfl⟩ := map_ok h
    obtain ⟨hname, hversion, hdepends, hprovides, hconflicts, hreplaces⟩ := setField_kept hset hk
    exact ⟨fun hm => hname (List.mem_cons_of_mem _ hm), fun hm => hversion (List.mem_cons_of_mem _ hm), hdepends,
      hprovides, hconflicts, hreplaces⟩

theorem readLines_kept {lines : List (List Char)} {state state' : Worker.Reading}
    (h : lines.foldlM Worker.readLine state = .ok state') (hk : Kept state.1 state.2) : Kept state'.1 state'.2 := by
  induction lines generalizing state with
  | nil =>
    cases h
    exact hk
  | cons line lines ih =>
    rw [List.foldlM_cons] at h
    obtain ⟨next, hnext, h⟩ := Fallible.bind_ok.mp h
    exact ih h (readLine_kept hnext hk)

/-- Metadata that the worker took. -/
structure Taken (m : Worker.PackageMetadata) : Prop where
  name : isPackageName m.name.toList = true
  version : parsePackageVersion m.fullVersion.toList = true
  depends : Listed false true m.depends
  provides : Listed true true m.provides
  conflicts : Listed false false m.conflicts
  replaces : Listed false false m.replaces

theorem parsePackageMetadata_taken {data : List Char} {m : Worker.PackageMetadata}
    (h : Worker.parsePackageMetadata data = .ok m) : Taken m := by
  unfold Worker.parsePackageMetadata at h
  obtain ⟨⟨metadata, seen⟩, hlines, h⟩ := Fallible.bind_ok.mp h
  dsimp only at h
  have hempty : ∀ provides allowSoname, Listed provides allowSoname [] := fun _ _ => ⟨by decide, by simp⟩
  obtain ⟨hname, hversion, hdepends, hprovides, hconflicts, hreplaces⟩ :=
    readLines_kept hlines ⟨by simp, by simp, hempty _ _, hempty _ _, hempty _ _, hempty _ _⟩
  split at h
  · rename_i hseen
    cases h
    simp only [List.all_cons, Bool.and_eq_true, List.contains_iff_mem] at hseen
    exact ⟨hname hseen.1, hversion hseen.2.1, hdepends, hprovides, hconflicts, hreplaces⟩
  · cases h

/-! ## What the server makes of it -/

/-- The report of an output, every field kept. -/
def outputMetadata (m : Worker.PackageMetadata) (architecture : Owned.ArtifactArchitecture) : OutputMetadata where
  name := m.name
  fullVersion := m.fullVersion
  architecture
  installedSize := m.installedSize
  depends := m.depends
  provides := m.provides
  conflicts := m.conflicts
  replaces := m.replaces

/-- The schema takes the worker's object, whose architecture is a native one. -/
theorem schema_json {m : Worker.PackageMetadata} {native : Architecture} (ht : Taken m)
    (ha : Arch.readArchitecture m.architecture = some native) :
    Arch.packageMetadataSchema m.json = some ⟨m.name, m.fullVersion, native, m.installedSize, m.depends, m.provides,
      m.conflicts, m.replaces⟩ := by
  have hkeys : hasKeys ["name", "fullVersion", "architecture", "installedSize", "depends", "provides", "conflicts",
      "replaces"] [] m.json = true := by
    simp [hasKeys, Worker.PackageMetadata.json]
  have hprop : property "name" m.json = some (.str m.name) ∧ property "fullVersion" m.json = some (.str m.fullVersion) ∧
      property "architecture" m.json = some (.str m.architecture) ∧
      property "installedSize" m.json = some (.num (.ofNat m.installedSize)) ∧
      property "depends" m.json = some (.arr (m.depends.map .str)) ∧
      property "provides" m.json = some (.arr (m.provides.map .str)) ∧
      property "conflicts" m.json = some (.arr (m.conflicts.map .str)) ∧
      property "replaces" m.json = some (.arr (m.replaces.map .str)) := by
    simp [property, Worker.PackageMetadata.json]
  obtain ⟨h1, h2, h3, h4, h5, h6, h7, h8⟩ := hprop
  rw [Arch.packageMetadataSchema, hkeys, h1, h2, h3, h4, h5, h6, h7, h8, naturalOf_ofNat, textArray_map ht.depends.1,
    textArray_map ht.provides.1, textArray_map ht.conflicts.1, textArray_map ht.replaces.1]
  simp [Arch.textOf, ha]

/-- The server takes a list of the worker's when no soname of it ends badly. -/
theorem relationList_iff {provides allowSoname : Bool} {values : List String}
    (hl : Listed provides allowSoname values) :
    relationList provides allowSoname values = some values ↔ ∀ r ∈ values, SonameEnds r.toList := by
  have hone : ∀ r ∈ values, (isRelation provides allowSoname r = true ↔ SonameEnds r.toList) := fun r hr => by
    have hagree := relation_agrees r.toList provides allowSoname
    rw [String.ofList_toList] at hagree
    rw [hagree]
    exact and_iff_right (hl.2 r hr)
  unfold relationList
  by_cases hall : values.all (isRelation provides allowSoname) = true
  · rw [if_pos hall]
    exact iff_of_true rfl fun r hr => (hone r hr).mp (List.all_eq_true.mp hall r hr)
  · rw [if_neg hall]
    refine iff_of_false (by simp) fun h => hall ?_
    exact List.all_eq_true.mpr fun r hr => (hone r hr).mpr (h r hr)

/-- Where no soname is allowed, the worker takes none. -/
theorem sonameEnds_of_names {provides : Bool} {r : List Char} (h : parsePackageRelation r provides false = .ok r) :
    SonameEnds r := by
  intro hsoname
  obtain ⟨-, name, rest, o, hs, -, -, hn⟩ := (parsePackageRelation_iff _ _ _).mp h
  obtain ⟨rfl, rfl⟩ := hs.unique ⟨(List.append_nil _).symm, soname_not_operator hsoname, by simp⟩
  cases hn with
  | word hword => rw [(soname_not_word hsoname).1] at hword; cases hword
  | legacy _ ha _ => cases ha
  | prefixed _ ha _ => cases ha

theorem parsePackageMetadata_json {m : Worker.PackageMetadata} {native : Architecture} (ht : Taken m)
    (ha : Arch.readArchitecture m.architecture = some native) (p : Arch.PackageMetadata) :
    Arch.parsePackageMetadata m.json = some p ↔
      p = ⟨m.name, m.fullVersion, native, m.installedSize, m.depends, m.provides, m.conflicts, m.replaces⟩ ∧
        ∀ r ∈ m.depends ++ m.provides, SonameEnds r.toList := by
  have hconflicts := (relationList_iff ht.conflicts).mpr fun r hr => sonameEnds_of_names (ht.conflicts.2 r hr)
  have hreplaces := (relationList_iff ht.replaces).mpr fun r hr => sonameEnds_of_names (ht.replaces.2 r hr)
  have hversion : (parseArchPackageVersion m.fullVersion.toList).isNone = false := by
    have := ht.version
    rw [parsePackageVersion_eq] at this
    rw [← Option.not_isSome, this]
    rfl
  rw [Arch.parsePackageMetadata, schema_json ht ha]
  simp only [Option.bind_eq_bind, Option.bind_some, ht.name, hversion, Bool.true_eq_false, or_self, reduceCtorEq,
    if_false, hconflicts, hreplaces]
  rw [List.forall_mem_append, ← relationList_iff ht.depends, ← relationList_iff ht.provides]
  constructor
  · intro h
    obtain ⟨depends, hdepends, h⟩ := Option.bind_eq_some_iff.mp h
    obtain ⟨provides, hprovides, h⟩ := Option.bind_eq_some_iff.mp h
    rw [hdepends, hprovides]
    rw [(relationList_some hdepends).1, (relationList_some hprovides).1] at h ⊢
    exact ⟨(Option.some.inj h).symm, rfl, rfl⟩
  · rintro ⟨rfl, hdepends, hprovides⟩
    rw [hdepends, hprovides]
    rfl

/-- An output of any architecture is read as one of the first. -/
theorem native_json {m : Worker.PackageMetadata} {architecture : Owned.ArtifactArchitecture}
    (ha : m.architecture = architecture.text) : ∃ t native, Arch.readArchitecture t = some native ∧
      (if isText "any" (property "architecture" m.json) then Arch.withNative m.json else m.json) =
        { m with architecture := t }.json := by
  have hprop : property "architecture" m.json = some (.str m.architecture) := by
    simp [property, Worker.PackageMetadata.json]
  rw [hprop]
  obtain ⟨_, _, _, _, _, _, _, _, _⟩ := m
  dsimp only at ha
  subst ha
  cases architecture with
  | x86_64 => exact ⟨"x86_64", .x86_64, rfl, rfl⟩
  | aarch64 => exact ⟨"aarch64", .aarch64, rfl, rfl⟩
  | any => exact ⟨"x86_64", .x86_64, rfl, rfl⟩

theorem parseOutputMetadata_json {m : Worker.PackageMetadata} {architecture : Owned.ArtifactArchitecture} (ht : Taken m)
    (ha : m.architecture = architecture.text) :
    parseOutputMetadata m.json = some (outputMetadata m architecture) ↔
      ∀ r ∈ m.depends ++ m.provides, SonameEnds r.toList := by
  have hprop : property "architecture" m.json = some (.str m.architecture) := by
    simp [property, Worker.PackageMetadata.json]
  have hread : Arch.readArtifactArchitecture m.architecture = some architecture := by
    rw [ha]
    cases architecture <;> rfl
  obtain ⟨t, native, ht', hjson⟩ := native_json ha
  have hparse := @parsePackageMetadata_json { m with architecture := t } native
    ⟨ht.name, ht.version, ht.depends, ht.provides, ht.conflicts, ht.replaces⟩ ht'
  rw [parseOutputMetadata, hjson, hprop]
  constructor
  · intro h
    obtain ⟨p, hp, -⟩ := Option.bind_eq_some_iff.mp h
    exact ((hparse p).mp hp).2
  · intro h
    rw [(hparse _).mpr ⟨rfl, h⟩]
    simp [Arch.textOf, hread, outputMetadata]

/-- What the worker takes of a package the server takes too, every field kept, exactly when no prefixed soname among its
dependencies and provisions has a `.so` that another character than a dot follows; and every list of relations that the
server takes is taken by the worker. -/
theorem metadata_agrees {data : List Char} {m : Worker.PackageMetadata} (hm : Worker.parsePackageMetadata data = .ok m)
    {expected : ExpectedOutput} (he : m.name = expected.name ∧ m.fullVersion = expected.fullVersion ∧
      m.architecture = expected.architecture.text) :
    (parseOutputMetadata m.json = some (outputMetadata m expected.architecture) ↔
      ∀ r ∈ m.depends ++ m.provides, SonameEnds r.toList) ∧
    ∀ provides allowSoname values values', relationList provides allowSoname values = some values' →
      ∀ r ∈ values, parsePackageRelation r.toList provides allowSoname = .ok r.toList := by
  refine ⟨parseOutputMetadata_json (parsePackageMetadata_taken hm) he.2.2, ?_⟩
  intro provides allowSoname values values' h r hr
  have hone := (relationList_some h).2 r hr
  rw [← String.ofList_toList (s := r), relation_agrees] at hone
  exact hone.1

/-- A package of any architecture that depends on a relation. -/
def packageInfo (relation : String) : List Char :=
  ("pkgname = a\npkgver = 1-1\narch = any\nsize = 1\ndepend = " ++ relation ++ "\n").toList

def dependsOn (relation : String) : Worker.PackageMetadata where
  packageBase := ""
  name := "a"
  fullVersion := "1-1"
  architecture := "any"
  installedSize := 1
  depends := [relation]
  provides := []
  conflicts := []
  replaces := []

theorem metadata_agrees_soname :
    (parseOutputMetadata (dependsOn "lib:libfoo.so.6").json = some (outputMetadata (dependsOn "lib:libfoo.so.6") .any) ↔
      ∀ r ∈ ["lib:libfoo.so.6"] ++ [], SonameEnds r.toList) ∧
    ∀ provides allowSoname values values', relationList provides allowSoname values = some values' →
      ∀ r ∈ values, parsePackageRelation r.toList provides allowSoname = .ok r.toList :=
  @metadata_agrees (packageInfo "lib:libfoo.so.6") (dependsOn "lib:libfoo.so.6") (by decide +kernel)
    ⟨"a", "1-1", .any⟩ ⟨rfl, rfl, rfl⟩

/-- A name with `.so` within it is a soname for the worker only. -/
theorem song_rejected : Worker.parsePackageMetadata (packageInfo "lib:foo.song") = .ok (dependsOn "lib:foo.song") ∧
    parseOutputMetadata (dependsOn "lib:foo.song").json = none := by
  decide +kernel

end Omapkg.Wire
