import Omapkg.Lib.Bounds
import Omapkg.Server.OutputMetadata
import Omapkg.Server.VersionOrder
/-!
# Covered relations

`archRelationCovers` of `src/src/lib/server/arch.ts`: whether a relation of a package is at
least as strict as a reviewed one. It compares bounds over positions among versions, which
say what versions with a release satisfy. A version without a release is compared by its
base alone, where a bound inside a release and one outside it are the same.
-/

namespace Omapkg.Server.Arch

open Json

/-! ## Positions and ranges -/

inductive VersionEdge where
  | start | point | stop
  deriving DecidableEq, Repr

/-- `{ start: 0, point: 1, end: 2 }`. -/
def VersionEdge.rank : VersionEdge → Nat
  | start => 0
  | point => 1
  | stop => 2

structure VersionPosition extends PackageVersion where
  edge : VersionEdge

abbrev VersionBound := Bound VersionPosition

structure VersionRange where
  lower : Option VersionBound
  upper : Option VersionBound

def compareVersionBase (left right : PackageVersion) : Ordering :=
  ((compare left.epoch.length right.epoch.length).then (compareChars left.epoch right.epoch)).then
    (compareVersionText left.pkgver right.pkgver)

def compareVersionPosition (left right : VersionPosition) : Ordering :=
  (compareVersionBase left.toPackageVersion right.toPackageVersion).then
    (if left.edge ≠ right.edge then compare left.edge.rank right.edge.rank
    else
      match left.edge, left.pkgrel, right.pkgrel with
      | .point, some l, some r => compareVersionText l r
      | _, _, _ => .eq)

def versionPosition (value : List Char) (edge : VersionEdge) : Option VersionPosition :=
  (parseArchPackageVersion value).map fun parsed => ⟨parsed, edge⟩

/-- The range of an operator and a version. -/
def operatorRange (operator : Operator) (point start stop : VersionPosition) : VersionRange :=
  let hasRelease := point.pkgrel.isSome
  match operator with
  | .eq =>
    if hasRelease then ⟨some ⟨point, true⟩, some ⟨point, true⟩⟩ else ⟨some ⟨start, true⟩, some ⟨stop, true⟩⟩
  | .ge => ⟨some ⟨if hasRelease then point else start, true⟩, none⟩
  | .gt => ⟨some ⟨if hasRelease then point else stop, false⟩, none⟩
  | .le => ⟨none, some ⟨if hasRelease then point else stop, true⟩⟩
  | .lt => ⟨none, some ⟨if hasRelease then point else start, false⟩⟩

def relationRange (relation : ArchDependency) : Option VersionRange :=
  match relation.operator, relation.version with
  | some operator, some version =>
    match versionPosition version.toList .point, versionPosition version.toList .start,
        versionPosition version.toList .stop with
    | some point, some start, some stop => some (operatorRange operator point start stop)
    | _, _, _ => none
  | _, _ => none

def lowerCovers (native reviewed : Option VersionBound) : Bool :=
  match reviewed, native with
  | none, _ => true
  | some _, none => false
  | some reviewed, some native =>
    let comparison := compareVersionPosition native.position reviewed.position
    comparison.isGT || (comparison.isEq && (!native.inclusive || reviewed.inclusive))

def upperCovers (native reviewed : Option VersionBound) : Bool :=
  match reviewed, native with
  | none, _ => true
  | some _, none => false
  | some reviewed, some native =>
    let comparison := compareVersionPosition native.position reviewed.position
    comparison.isLT || (comparison.isEq && (!native.inclusive || reviewed.inclusive))

/-- `/^\.\d(?:[A-Za-z0-9._+~-]*)$/`. -/
def isSonameVersion : List Char → Bool
  | '.' :: d :: rest => d.isDigit && rest.all isSonameChar
  | _ => false

def sameRelationCapability (actual reviewed : ArchDependency) : Bool :=
  if actual.name = reviewed.name then true
  else if reviewed.operator.isSome || actual.operator.isSome || !reviewed.name.toList.reverse.take 3 = "os.".toList ||
      !actual.name.toList.contains ':' then false
  else
    let soname := afterColon actual.name.toList
    soname = reviewed.name.toList ||
      ((reviewed.name.toList ++ ['.']).isPrefixOf soname && isSonameVersion (soname.drop reviewed.name.toList.length))

/-- Whether the native relation is equal to the reviewed one or stricter. -/
def archRelationCovers (nativeValue reviewedValue : String) : Bool :=
  match parseArchRelation nativeValue, parseArchRelation reviewedValue with
  | some native, some reviewed =>
    if sameRelationCapability native reviewed = false then false
    else if reviewed.operator = none then true
    else if native.operator = none ∨ native.version = none ∨ reviewed.version = none then false
    else
      match relationRange native, relationRange reviewed with
      | some nativeRange, some reviewedRange =>
        lowerCovers nativeRange.lower reviewedRange.lower && upperCovers nativeRange.upper reviewedRange.upper
      | _, _ => false
  | _, _ => false

/-! ## What a version satisfies -/

instance : Std.TransCmp compareChars := by
  have hpoints : compareChars = fun a b => List.compareLex compare (points a) (points b) :=
    funext fun a => funext fun b => compareChars_points a b
  rw [hpoints]
  exact transCmp_on (List.compareLex compare) points

instance : Std.TransCmp compareVersionBase := by
  have hepoch : Std.TransCmp fun a b : PackageVersion => compareChars a.epoch b.epoch :=
    transCmp_on compareChars PackageVersion.epoch
  have hpkgver : Std.TransCmp fun a b : PackageVersion => compareVersionText a.pkgver b.pkgver :=
    transCmp_on compareVersionText PackageVersion.pkgver
  exact inferInstanceAs (Std.TransCmp (compareLex (compareLex (compareOn fun a : PackageVersion => a.epoch.length)
    fun a b => compareChars a.epoch b.epoch) fun a b => compareVersionText a.pkgver b.pkgver))

/-- What a position is compared by: only a point has a release. -/
structure PositionKey where
  base : PackageVersion
  rank : Nat
  release : List Char

def comparePositionKeys : PositionKey → PositionKey → Ordering :=
  compareLex (fun a b => compareVersionBase a.base b.base)
    (compareLex (compareOn (·.rank)) fun a b => compareVersionText a.release b.release)

instance : Std.TransCmp comparePositionKeys := by
  have hbase : Std.TransCmp fun a b : PositionKey => compareVersionBase a.base b.base :=
    transCmp_on compareVersionBase PositionKey.base
  have hrelease : Std.TransCmp fun a b : PositionKey => compareVersionText a.release b.release :=
    transCmp_on compareVersionText PositionKey.release
  exact inferInstanceAs (Std.TransCmp (compareLex (fun a b => compareVersionBase a.base b.base)
    (compareLex (compareOn PositionKey.rank) fun a b => compareVersionText a.release b.release)))

def VersionPosition.key (p : VersionPosition) : PositionKey :=
  ⟨p.toPackageVersion, p.edge.rank, if p.edge = .point then p.pkgrel.getD [] else []⟩

/-- A point is the point of a release. -/
def VersionPosition.Placed (p : VersionPosition) : Prop := p.edge = .point → p.pkgrel.isSome

theorem compareVersionPosition_key {left right : VersionPosition} (hl : left.Placed) (hr : right.Placed) :
    compareVersionPosition left right = comparePositionKeys left.key right.key := by
  have hkeys : comparePositionKeys left.key right.key =
      (compareVersionBase left.toPackageVersion right.toPackageVersion).then
        ((compare left.edge.rank right.edge.rank).then (compareVersionText left.key.release right.key.release)) := rfl
  rw [hkeys, compareVersionPosition]
  refine congrArg _ ?_
  obtain ⟨⟨_, _, rel⟩, edge⟩ := left
  obtain ⟨⟨_, _, rel'⟩, edge'⟩ := right
  cases edge with
  | start => cases edge' <;> rfl
  | stop => cases edge' <;> rfl
  | point =>
    cases edge' with
    | start => rfl
    | stop => rfl
    | point =>
      obtain ⟨l, rfl⟩ := Option.isSome_iff_exists.mp (hl rfl)
      obtain ⟨r, rfl⟩ := Option.isSome_iff_exists.mp (hr rfl)
      rfl

/-- How `compareArchVersions` compares what it parsed. -/
def comparePackageVersions (a b : PackageVersion) : Ordering :=
  (compareVersionBase a b).then
    (match a.pkgrel, b.pkgrel with
      | some r, some r' => compareVersionText r r'
      | _, _ => .eq)

theorem compareArchVersions_parsed {left right : List Char} {a b : PackageVersion}
    (ha : parseArchPackageVersion left = some a) (hb : parseArchPackageVersion right = some b) :
    compareArchVersions left right = some (comparePackageVersions a b) := by
  unfold compareArchVersions
  rw [ha, hb]
  exact congrArg some (Ordering.then_assoc _ _ _).symm

def Operator.holds : Operator → Ordering → Bool
  | .eq, o => o.isEq
  | .gt, o => o.isGT
  | .ge, o => o.isGE
  | .lt, o => o.isLT
  | .le, o => o.isLE

/-- Whether the bound below, where there is one, is inside. -/
def Operator.lower : Operator → Option Bool
  | .eq | .ge => some true
  | .gt => some false
  | .le | .lt => none

def Operator.upper : Operator → Option Bool
  | .eq | .le => some true
  | .lt => some false
  | .ge | .gt => none

def Operator.strict : Operator → Bool
  | .gt | .lt => true
  | .eq | .ge | .le => false

theorem Operator.strict_of_lower {o : Operator} {i : Bool} (h : i ∈ o.lower) : o.strict = !i := by
  cases o <;> cases h <;> rfl

theorem Operator.strict_of_upper {o : Operator} {i : Bool} (h : i ∈ o.upper) : o.strict = !i := by
  cases o <;> cases h <;> rfl

theorem satisfiesArchDependency_iff {name w v : String} {o : Operator} {b : PackageVersion}
    (hw : parseArchPackageVersion w.toList = some b) : satisfiesArchDependency ⟨name, some o, some w⟩ v = true ↔
      ∃ a, parseArchPackageVersion v.toList = some a ∧ o.holds (comparePackageVersions a b) = true := by
  cases hv : parseArchPackageVersion v.toList with
  | none => simp [satisfiesArchDependency, compareArchVersions, hv]
  | some a =>
    have hcompare := compareArchVersions_parsed hv hw
    cases o <;> simp [satisfiesArchDependency, hcompare, Operator.holds]

def Operator.range (o : Operator) (b : PackageVersion) : VersionRange :=
  operatorRange o ⟨b, .point⟩ ⟨b, .start⟩ ⟨b, .stop⟩

/-- The bounds of a range are at the version, at an edge that it has. -/
theorem Operator.range_lower (o : Operator) (b : PackageVersion) : ∃ edge, (⟨b, edge⟩ : VersionPosition).Placed ∧
    (o.range b).lower = o.lower.map fun i => ⟨⟨b, edge⟩, i⟩ := by
  have hplain {edge : VersionEdge} (h : edge ≠ .point) : (⟨b, edge⟩ : VersionPosition).Placed := fun hp => absurd hp h
  cases hr : b.pkgrel.isSome with
  | true => cases o <;> exact ⟨.point, fun _ => hr, by simp [Operator.range, operatorRange, Operator.lower, hr]⟩
  | false =>
    cases o with
    | gt => exact ⟨.stop, hplain (by decide), by simp [Operator.range, operatorRange, Operator.lower, hr]⟩
    | eq | ge | le | lt => exact ⟨.start, hplain (by decide), by simp [Operator.range, operatorRange, Operator.lower, hr]⟩

theorem Operator.range_upper (o : Operator) (b : PackageVersion) : ∃ edge, (⟨b, edge⟩ : VersionPosition).Placed ∧
    (o.range b).upper = o.upper.map fun i => ⟨⟨b, edge⟩, i⟩ := by
  have hplain {edge : VersionEdge} (h : edge ≠ .point) : (⟨b, edge⟩ : VersionPosition).Placed := fun hp => absurd hp h
  cases hr : b.pkgrel.isSome with
  | true => cases o <;> exact ⟨.point, fun _ => hr, by simp [Operator.range, operatorRange, Operator.upper, hr]⟩
  | false =>
    cases o with
    | lt => exact ⟨.start, hplain (by decide), by simp [Operator.range, operatorRange, Operator.upper, hr]⟩
    | eq | ge | le | gt => exact ⟨.stop, hplain (by decide), by simp [Operator.range, operatorRange, Operator.upper, hr]⟩

theorem VersionBound.keyed (b : VersionBound) : (b.map VersionPosition.key).position = b.position.key := rfl

def keyed (bound : Option VersionBound) : Option (Bound PositionKey) := bound.map (Bound.map VersionPosition.key)

/-- A version with a release satisfies what its point is in the range of. -/
theorem holds_release {a b : PackageVersion} {r : List Char} (ha : a.pkgrel = some r) (o : Operator) :
    o.holds (comparePackageVersions a b) = true ↔
      Bound.Admits comparePositionKeys (keyed (o.range b).lower) (VersionPosition.key ⟨a, .point⟩) ∧
      Bound.AdmitsBelow comparePositionKeys (keyed (o.range b).upper) (VersionPosition.key ⟨a, .point⟩) := by
  have hstart : comparePositionKeys (VersionPosition.key ⟨a, .point⟩) (VersionPosition.key ⟨b, .start⟩) =
      (compareVersionBase a b).then .gt := rfl
  have hstop : comparePositionKeys (VersionPosition.key ⟨a, .point⟩) (VersionPosition.key ⟨b, .stop⟩) =
      (compareVersionBase a b).then .lt := rfl
  cases hb : b.pkgrel with
  | none =>
    have hcompare : comparePackageVersions a b = compareVersionBase a b := by
      rw [comparePackageVersions, ha, hb, Ordering.then_eq]
    rw [hcompare]
    cases o <;> simp [Operator.range, operatorRange, hb, keyed, Bound.map, hstart, hstop, Operator.holds]
      <;> cases compareVersionBase a b <;> simp
  | some r' =>
    have hpoint : comparePositionKeys (VersionPosition.key ⟨a, .point⟩) (VersionPosition.key ⟨b, .point⟩) =
        comparePackageVersions a b := by
      have hkeys : comparePositionKeys (VersionPosition.key ⟨a, .point⟩) (VersionPosition.key ⟨b, .point⟩) =
        (compareVersionBase a b).then (compareVersionText (a.pkgrel.getD []) (b.pkgrel.getD [])) := rfl
      rw [hkeys, ha, hb, comparePackageVersions, ha, hb]
      rfl
    cases o <;> simp [Operator.range, operatorRange, hb, keyed, Bound.map, hpoint, Operator.holds]
      <;> cases comparePackageVersions a b <;> simp

/-- A version without a release satisfies what its base is in the range of. -/
theorem holds_base {a b : PackageVersion} (ha : a.pkgrel = none) (o : Operator) :
    o.holds (comparePackageVersions a b) = true ↔
      Bound.Admits compareVersionBase (o.lower.map fun i => ⟨b, i⟩) a ∧
      Bound.AdmitsBelow compareVersionBase (o.upper.map fun i => ⟨b, i⟩) a := by
  have hcompare : comparePackageVersions a b = compareVersionBase a b := by
    rw [comparePackageVersions, ha, Ordering.then_eq]
  rw [hcompare]
  cases o <;> simp [Operator.lower, Operator.upper, Operator.holds]
    <;> cases compareVersionBase a b <;> simp

/-! ## What covers -/

/-- The native relation takes its own version and the reviewed one does not, and they are
of one version but for the release. -/
def Blurs (native reviewed : Operator) (a b : PackageVersion) : Prop :=
  native.strict = false ∧ reviewed.strict = true ∧ compareVersionBase a b = .eq

theorem lowerCovers_iff {native reviewed : Option VersionBound} : lowerCovers native reviewed = true ↔
    ∀ r ∈ reviewed, ∃ n ∈ native, compareVersionPosition n.position r.position = .gt ∨
      compareVersionPosition n.position r.position = .eq ∧ (n.inclusive = true → r.inclusive = true) := by
  cases reviewed with
  | none => simp [lowerCovers]
  | some r =>
    cases native with
    | none => simp [lowerCovers]
    | some n =>
      cases hc : compareVersionPosition n.position r.position <;> cases hn : n.inclusive <;> simp [lowerCovers, hc, hn]

theorem upperCovers_iff {native reviewed : Option VersionBound} : upperCovers native reviewed = true ↔
    ∀ r ∈ reviewed, ∃ n ∈ native, compareVersionPosition n.position r.position = .lt ∨
      compareVersionPosition n.position r.position = .eq ∧ (n.inclusive = true → r.inclusive = true) := by
  cases reviewed with
  | none => simp [upperCovers]
  | some r =>
    cases native with
    | none => simp [upperCovers]
    | some n =>
      cases hc : compareVersionPosition n.position r.position <;> cases hn : n.inclusive <;> simp [upperCovers, hc, hn]

section
variable {native reviewed : Operator} {a b : PackageVersion}

theorem lowerCovers_range (h : lowerCovers (native.range a).lower (reviewed.range b).lower = true) :
    ∃ e e', (⟨a, e⟩ : VersionPosition).Placed ∧ (⟨b, e'⟩ : VersionPosition).Placed ∧
      (native.range a).lower = native.lower.map (fun i => ⟨⟨a, e⟩, i⟩) ∧
      (reviewed.range b).lower = reviewed.lower.map (fun i => ⟨⟨b, e'⟩, i⟩) ∧
      ∀ i' ∈ reviewed.lower, ∃ i ∈ native.lower, compareVersionPosition ⟨a, e⟩ ⟨b, e'⟩ = .gt ∨
        compareVersionPosition ⟨a, e⟩ ⟨b, e'⟩ = .eq ∧ (i = true → i' = true) := by
  obtain ⟨e, he, hn⟩ := native.range_lower a
  obtain ⟨e', he', hr⟩ := reviewed.range_lower b
  refine ⟨e, e', he, he', hn, hr, fun i' hi' => ?_⟩
  rw [hn, hr, lowerCovers_iff] at h
  obtain ⟨n, hmem, hc⟩ := h ⟨⟨b, e'⟩, i'⟩ (Option.mem_map_of_mem _ hi')
  obtain ⟨i, hi, rfl⟩ := Option.mem_map.mp hmem
  exact ⟨i, hi, hc⟩

theorem upperCovers_range (h : upperCovers (native.range a).upper (reviewed.range b).upper = true) :
    ∃ e e', (⟨a, e⟩ : VersionPosition).Placed ∧ (⟨b, e'⟩ : VersionPosition).Placed ∧
      (native.range a).upper = native.upper.map (fun i => ⟨⟨a, e⟩, i⟩) ∧
      (reviewed.range b).upper = reviewed.upper.map (fun i => ⟨⟨b, e'⟩, i⟩) ∧
      ∀ i' ∈ reviewed.upper, ∃ i ∈ native.upper, compareVersionPosition ⟨a, e⟩ ⟨b, e'⟩ = .lt ∨
        compareVersionPosition ⟨a, e⟩ ⟨b, e'⟩ = .eq ∧ (i = true → i' = true) := by
  obtain ⟨e, he, hn⟩ := native.range_upper a
  obtain ⟨e', he', hr⟩ := reviewed.range_upper b
  refine ⟨e, e', he, he', hn, hr, fun i' hi' => ?_⟩
  rw [hn, hr, upperCovers_iff] at h
  obtain ⟨n, hmem, hc⟩ := h ⟨⟨b, e'⟩, i'⟩ (Option.mem_map_of_mem _ hi')
  obtain ⟨i, hi, rfl⟩ := Option.mem_map.mp hmem
  exact ⟨i, hi, hc⟩

theorem lower_keyed (h : lowerCovers (native.range a).lower (reviewed.range b).lower = true) :
    Bound.Covers comparePositionKeys (keyed (native.range a).lower) (keyed (reviewed.range b).lower) := by
  obtain ⟨e, e', he, he', hn, hr, hall⟩ := lowerCovers_range h
  rw [hn, hr, keyed, keyed, Option.map_map, Option.map_map]
  intro r hmem
  obtain ⟨i', hi', rfl⟩ := Option.mem_map.mp hmem
  obtain ⟨i, hi, hc⟩ := hall i' hi'
  rw [compareVersionPosition_key he he'] at hc
  exact ⟨_, Option.mem_map_of_mem _ hi, hc⟩

theorem upper_keyed (h : upperCovers (native.range a).upper (reviewed.range b).upper = true) :
    Bound.Covers (fun x y => comparePositionKeys y x) (keyed (native.range a).upper) (keyed (reviewed.range b).upper) := by
  obtain ⟨e, e', he, he', hn, hr, hall⟩ := upperCovers_range h
  rw [hn, hr, keyed, keyed, Option.map_map, Option.map_map]
  intro r hmem
  obtain ⟨i', hi', rfl⟩ := Option.mem_map.mp hmem
  obtain ⟨i, hi, hc⟩ := hall i' hi'
  rw [compareVersionPosition_key he he', ← Std.OrientedCmp.gt_iff_lt, Std.OrientedCmp.eq_comm] at hc
  exact ⟨_, Option.mem_map_of_mem _ hi, hc⟩

theorem inside_of_not_blurs {i i' : Bool} (hn : native.strict = !i) (hr : reviewed.strict = !i')
    (hbase : compareVersionBase a b = .eq) (hblurs : ¬Blurs native reviewed a b) (hi : i = true) : i' = true := by
  by_contra hi'
  apply hblurs
  refine ⟨?_, ?_, hbase⟩
  · rw [hn, hi]
    rfl
  · rw [hr, eq_false_of_ne_true hi']
    rfl

/-- The bounds cover each other without their releases, the native ones as wide as they
are only where the releases are not what decides. -/
theorem lower_base (h : lowerCovers (native.range a).lower (reviewed.range b).lower = true) {wide : Bool}
    (hblurs : wide = true → ¬Blurs native reviewed a b) :
    Bound.Covers compareVersionBase (native.lower.map fun i => ⟨a, i && wide⟩) (reviewed.lower.map fun i => ⟨b, i⟩) := by
  obtain ⟨e, e', -, -, -, -, hall⟩ := lowerCovers_range h
  intro r hmem
  obtain ⟨i', hi', rfl⟩ := Option.mem_map.mp hmem
  obtain ⟨i, hi, hc⟩ := hall i' hi'
  refine ⟨⟨a, i && wide⟩, Option.mem_map_of_mem _ hi, ?_⟩
  cases hbase : compareVersionBase a b with
  | lt => simp [compareVersionPosition, hbase] at hc
  | gt => exact .inl rfl
  | eq =>
    refine .inr ⟨rfl, fun hinside => ?_⟩
    obtain ⟨hinside, hwide⟩ := (Bool.and_eq_true _ _).mp hinside
    exact inside_of_not_blurs (Operator.strict_of_lower hi) (Operator.strict_of_lower hi') hbase (hblurs hwide) hinside

theorem upper_base (h : upperCovers (native.range a).upper (reviewed.range b).upper = true) {wide : Bool}
    (hblurs : wide = true → ¬Blurs native reviewed a b) :
    Bound.Covers (fun x y => compareVersionBase y x) (native.upper.map fun i => ⟨a, i && wide⟩)
      (reviewed.upper.map fun i => ⟨b, i⟩) := by
  obtain ⟨e, e', -, -, -, -, hall⟩ := upperCovers_range h
  intro r hmem
  obtain ⟨i', hi', rfl⟩ := Option.mem_map.mp hmem
  obtain ⟨i, hi, hc⟩ := hall i' hi'
  refine ⟨⟨a, i && wide⟩, Option.mem_map_of_mem _ hi, ?_⟩
  rw [Std.OrientedCmp.gt_iff_lt, Std.OrientedCmp.eq_comm]
  cases hbase : compareVersionBase a b with
  | gt => simp [compareVersionPosition, hbase] at hc
  | lt => exact .inl rfl
  | eq =>
    refine .inr ⟨rfl, fun hinside => ?_⟩
    obtain ⟨hinside, hwide⟩ := (Bool.and_eq_true _ _).mp hinside
    exact inside_of_not_blurs (Operator.strict_of_upper hi) (Operator.strict_of_upper hi') hbase (hblurs hwide) hinside

/-- A version that a bound admits is admitted by the bound that is inside only where the
version is. -/
theorem admits_wide {cmp : PackageVersion → PackageVersion → Ordering} {inside : Option Bool} {c : PackageVersion}
    (h : Bound.Admits cmp (inside.map fun i => ⟨a, i⟩) c) :
    Bound.Admits cmp (inside.map fun i => ⟨a, i && (cmp c a).isEq⟩) c := by
  intro n hmem
  obtain ⟨i, hi, rfl⟩ := Option.mem_map.mp hmem
  rcases h ⟨a, i⟩ (Option.mem_map_of_mem _ hi) with hgt | ⟨heq, hinside⟩
  · exact .inl hgt
  · exact .inr ⟨heq, by simpa [heq] using hinside⟩

/-- What the native relation takes, the reviewed one takes, unless it is a version without
a release where they blur. -/
theorem covers_holds (hl : lowerCovers (native.range a).lower (reviewed.range b).lower = true)
    (hu : upperCovers (native.range a).upper (reviewed.range b).upper = true) {c : PackageVersion}
    (hblurs : c.pkgrel = none → compareVersionBase c a = .eq → ¬Blurs native reviewed a b)
    (hc : native.holds (comparePackageVersions c a) = true) : reviewed.holds (comparePackageVersions c b) = true := by
  cases hrel : c.pkgrel with
  | none =>
    have hlower : (compareVersionBase c a).isEq = true → ¬Blurs native reviewed a b := fun heq =>
      hblurs hrel (Ordering.isEq_iff_eq_eq.mp heq)
    have hupper : (compareVersionBase a c).isEq = true → ¬Blurs native reviewed a b := fun heq =>
      hblurs hrel (Std.OrientedCmp.eq_symm (Ordering.isEq_iff_eq_eq.mp heq))
    rw [holds_base hrel] at hc ⊢
    exact ⟨(lower_base hl hlower).admits (admits_wide hc.1), (upper_base hu hupper).admits (admits_wide hc.2)⟩
  | some r =>
    rw [holds_release hrel] at hc ⊢
    exact ⟨(lower_keyed hl).admits hc.1, (upper_keyed hu).admits hc.2⟩

end

/-! ## Packages -/

/-- Whether a package carries a capability at a version, by its own name or a versioned provide. -/
def Carries (p : PackageMetadata) (name version : String) : Prop :=
  p.name = name ∧ p.fullVersion = version ∨
    p.name ≠ name ∧ ∃ value ∈ p.provides, parseArchRelation value = some ⟨name, some .eq, some version⟩

def satisfies (dependency : ArchDependency) (p : PackageMetadata) : Bool :=
  satisfiesArchRelation dependency p.name p.fullVersion p.provides

theorem satisfies_iff {name w : String} {o : Operator} {p : PackageMetadata} :
    satisfies ⟨name, some o, some w⟩ p = true ↔
      ∃ v, Carries p name v ∧ satisfiesArchDependency ⟨name, some o, some w⟩ v = true := by
  unfold satisfies satisfiesArchRelation
  by_cases hname : name = p.name
  · subst hname
    simp [Carries]
  · have hne : p.name ≠ name := Ne.symm hname
    simp only [hname, if_false, Option.isNone_some, Bool.false_or, List.any_eq_true]
    constructor
    · rintro ⟨value, hvalue, h⟩
      split at h
      · cases h
      · next provided hparse =>
        obtain ⟨pname, poperator, pversion⟩ := provided
        simp only [Bool.and_eq_true, decide_eq_true_eq, Option.any_eq_true] at h
        obtain ⟨rfl, rfl, v, rfl, hv⟩ := h
        exact ⟨v, .inr ⟨hne, value, hvalue, hparse⟩, hv⟩
    · rintro ⟨v, ⟨hp, -⟩ | ⟨-, value, hvalue, hparse⟩, hv⟩
      · exact absurd hp hne
      · exact ⟨value, hvalue, by simp [hparse, hv]⟩

/-- Without an operator a capability is satisfied by whatever has the name. -/
theorem satisfies_unversioned {dependency : ArchDependency} {name : String} {p : PackageMetadata}
    (h : satisfies dependency p = true) (hname : dependency.name = name) {version : Option String} :
    satisfies ⟨name, none, version⟩ p = true := by
  subst hname
  unfold satisfies satisfiesArchRelation at h ⊢
  split at h
  · next heq => simp [heq]
  · next hne =>
    rw [if_neg hne]
    obtain ⟨value, hvalue, h⟩ := List.any_eq_true.mp h
    refine List.any_eq_true.mpr ⟨value, hvalue, ?_⟩
    split at h
    · cases h
    · next provided hparse =>
      simp only [Bool.and_eq_true, decide_eq_true_eq] at h
      simp [h.1]

def architectureText : Architecture → String
  | .x86_64 => "x86_64"
  | .aarch64 => "aarch64"

/-- The object that is read as the metadata. -/
def PackageMetadata.value (p : PackageMetadata) : Json String :=
  .obj [("name", .str p.name), ("fullVersion", .str p.fullVersion), ("architecture", .str (architectureText p.architecture)),
    ("installedSize", .num (.ofNat p.installedSize)), ("depends", .arr (p.depends.map .str)),
    ("provides", .arr (p.provides.map .str)), ("conflicts", .arr (p.conflicts.map .str)),
    ("replaces", .arr (p.replaces.map .str))]

/-- What the validator checks of metadata. -/
structure Accepted (p : PackageMetadata) : Prop where
  name : isPackageName p.name.toList = true
  fullVersion : (parseArchPackageVersion p.fullVersion.toList).isSome
  depends : p.depends.length ≤ 256 ∧ ∀ r ∈ p.depends, isRelation false true r = true
  provides : p.provides.length ≤ 256 ∧ ∀ r ∈ p.provides, isRelation true true r = true
  conflicts : p.conflicts.length ≤ 256 ∧ ∀ r ∈ p.conflicts, isRelation false false r = true
  replaces : p.replaces.length ≤ 256 ∧ ∀ r ∈ p.replaces, isRelation false false r = true

theorem length_of_mapM {α β : Type} {f : α → Option β} {l : List α} {ys : List β} (h : l.mapM f = some ys) :
    ys.length = l.length := by
  induction l generalizing ys with
  | nil => cases h; rfl
  | cons x l ih =>
    rw [List.mapM_cons] at h
    obtain ⟨y, -, h⟩ := Option.bind_eq_some_iff.mp h
    obtain ⟨rest, hrest, h⟩ := Option.bind_eq_some_iff.mp h
    cases h
    rw [List.length_cons, List.length_cons, ih hrest]

theorem textArray_some {value : Option (Json String)} {xs : List String} (h : textArray value = some xs) :
    xs.length ≤ 256 := by
  unfold textArray at h
  split at h
  · split_ifs at h with hlength
    rwa [length_of_mapM h]
  · cases h

theorem relationList_of_all {provides allowSoname : Bool} {values : List String}
    (h : ∀ r ∈ values, isRelation provides allowSoname r = true) : relationList provides allowSoname values = some values :=
  if_pos (List.all_eq_true.mpr h)

theorem parsePackageMetadata_accepted {value : Json String} {p : PackageMetadata}
    (h : parsePackageMetadata value = some p) : Accepted p := by
  unfold parsePackageMetadata at h
  obtain ⟨object, hobject, h⟩ := Option.bind_eq_some_iff.mp h
  split_ifs at h with hbad
  rw [not_or] at hbad
  obtain ⟨depends, hdepends, h⟩ := Option.bind_eq_some_iff.mp h
  obtain ⟨provides, hprovides, h⟩ := Option.bind_eq_some_iff.mp h
  obtain ⟨conflicts, hconflicts, h⟩ := Option.bind_eq_some_iff.mp h
  obtain ⟨replaces, hreplaces, h⟩ := Option.bind_eq_some_iff.mp h
  obtain rfl := Option.some.inj h
  obtain ⟨rfl, hallDepends⟩ := relationList_some hdepends
  obtain ⟨rfl, hallProvides⟩ := relationList_some hprovides
  obtain ⟨rfl, hallConflicts⟩ := relationList_some hconflicts
  obtain ⟨rfl, hallReplaces⟩ := relationList_some hreplaces
  have hlengths : object.depends.length ≤ 256 ∧ object.provides.length ≤ 256 ∧ object.conflicts.length ≤ 256 ∧
      object.replaces.length ≤ 256 := by
    unfold packageMetadataSchema at hobject
    split_ifs at hobject
    obtain ⟨name, -, hobject⟩ := Option.bind_eq_some_iff.mp hobject
    obtain ⟨fullVersion, -, hobject⟩ := Option.bind_eq_some_iff.mp hobject
    obtain ⟨architecture, -, hobject⟩ := Option.bind_eq_some_iff.mp hobject
    obtain ⟨installedSize, -, hobject⟩ := Option.bind_eq_some_iff.mp hobject
    obtain ⟨depends, h1, hobject⟩ := Option.bind_eq_some_iff.mp hobject
    obtain ⟨provides, h2, hobject⟩ := Option.bind_eq_some_iff.mp hobject
    obtain ⟨conflicts, h3, hobject⟩ := Option.bind_eq_some_iff.mp hobject
    obtain ⟨replaces, h4, hobject⟩ := Option.bind_eq_some_iff.mp hobject
    obtain rfl := Option.some.inj hobject
    exact ⟨textArray_some h1, textArray_some h2, textArray_some h3, textArray_some h4⟩
  obtain ⟨h1, h2, h3, h4⟩ := hlengths
  exact ⟨by simpa using hbad.1, by simpa [Option.isNone_iff_eq_none, ← Option.ne_none_iff_isSome] using hbad.2,
    ⟨h1, hallDepends⟩, ⟨h2, hallProvides⟩, ⟨h3, hallConflicts⟩, ⟨h4, hallReplaces⟩⟩

theorem Accepted.parse {p : PackageMetadata} (h : Accepted p) : parsePackageMetadata p.value = some p := by
  have hkeys : hasKeys ["name", "fullVersion", "architecture", "installedSize", "depends", "provides", "conflicts",
      "replaces"] [] p.value = true := by
    simp [hasKeys, PackageMetadata.value]
  have hprop : property "name" p.value = some (.str p.name) ∧ property "fullVersion" p.value = some (.str p.fullVersion) ∧
      property "architecture" p.value = some (.str (architectureText p.architecture)) ∧
      property "installedSize" p.value = some (.num (.ofNat p.installedSize)) ∧
      property "depends" p.value = some (.arr (p.depends.map .str)) ∧
      property "provides" p.value = some (.arr (p.provides.map .str)) ∧
      property "conflicts" p.value = some (.arr (p.conflicts.map .str)) ∧
      property "replaces" p.value = some (.arr (p.replaces.map .str)) := by
    simp [property, PackageMetadata.value]
  obtain ⟨h1, h2, h3, h4, h5, h6, h7, h8⟩ := hprop
  have harchitecture : readArchitecture (architectureText p.architecture) = some p.architecture := by
    cases p.architecture <;> rfl
  have hschema : packageMetadataSchema p.value = some p := by
    rw [packageMetadataSchema, hkeys, h1, h2, h3, h4, h5, h6, h7, h8, naturalOf_ofNat, textArray_map h.depends.1,
      textArray_map h.provides.1, textArray_map h.conflicts.1, textArray_map h.replaces.1]
    simp [textOf, harchitecture]
  have hversion : parseArchPackageVersion p.fullVersion.toList ≠ none := Option.isSome_iff_ne_none.mp h.fullVersion
  rw [parsePackageMetadata, hschema]
  simp [h.name, hversion, relationList_of_all h.depends.2, relationList_of_all h.provides.2,
    relationList_of_all h.conflicts.2, relationList_of_all h.replaces.2]

/-- Metadata of which one provide alone is kept. -/
theorem Accepted.one {p : PackageMetadata} (h : Accepted p) {value : String} (hvalue : value ∈ p.provides) :
    Accepted { p with provides := [value] } where
  name := h.name
  fullVersion := h.fullVersion
  depends := h.depends
  provides := ⟨by simp, fun r hr => by
    rw [List.mem_singleton] at hr
    exact h.provides.2 r (hr ▸ hvalue)⟩
  conflicts := h.conflicts
  replaces := h.replaces

/-! ## What is covered -/

/-- A version without a release where two relations blur: it is the native relation's own
but for the release. -/
def BlursAt (native reviewed : ArchDependency) (version : String) : Prop :=
  ∃ o o' w w' a b c, native.operator = some o ∧ reviewed.operator = some o' ∧ native.version = some w ∧
    reviewed.version = some w' ∧ parseArchPackageVersion w.toList = some a ∧
    parseArchPackageVersion w'.toList = some b ∧ parseArchPackageVersion version.toList = some c ∧
    Blurs o o' a b ∧ c.pkgrel = none ∧ compareVersionBase c a = .eq

/-- What `archRelationCovers` says of relations with operators. -/
theorem covers_ranges {nativeValue reviewedValue : String} {native reviewed : ArchDependency}
    (hn : parseArchRelation nativeValue = some native) (hr : parseArchRelation reviewedValue = some reviewed)
    (h : archRelationCovers nativeValue reviewedValue = true) (hoperator : reviewed.operator ≠ none) :
    ∃ o o' w w' a b, native.operator = some o ∧ reviewed.operator = some o' ∧ native.version = some w ∧
      reviewed.version = some w' ∧ parseArchPackageVersion w.toList = some a ∧
      parseArchPackageVersion w'.toList = some b ∧ lowerCovers (o.range a).lower (o'.range b).lower = true ∧
      upperCovers (o.range a).upper (o'.range b).upper = true := by
  obtain ⟨name, no, nv⟩ := native
  obtain ⟨name', ro, rv⟩ := reviewed
  rw [archRelationCovers, hn, hr] at h
  simp only at h hoperator
  split_ifs at h with hsame hnone
  rw [not_or, not_or] at hnone
  obtain ⟨o, rfl⟩ := Option.ne_none_iff_exists'.mp hnone.1
  obtain ⟨w, rfl⟩ := Option.ne_none_iff_exists'.mp hnone.2.1
  obtain ⟨w', rfl⟩ := Option.ne_none_iff_exists'.mp hnone.2.2
  obtain ⟨o', rfl⟩ := Option.ne_none_iff_exists'.mp hoperator
  cases ha : parseArchPackageVersion w.toList with
  | none => simp [relationRange, versionPosition, ha] at h
  | some a =>
    cases hb : parseArchPackageVersion w'.toList with
    | none => simp [relationRange, versionPosition, ha, hb] at h
    | some b =>
      simp only [relationRange, versionPosition, ha, hb, Option.map_some, Bool.and_eq_true] at h
      exact ⟨o, o', w, w', a, b, rfl, rfl, rfl, rfl, ha, hb, h.1, h.2⟩

theorem Operator.holds_loose {o : Operator} (h : o.strict = false) : o.holds .eq = true := by
  cases o <;> first | rfl | cases h

theorem Operator.holds_strict {o : Operator} (h : o.strict = true) : o.holds .eq = false := by
  cases o <;> first | rfl | cases h

/-- Where they blur, the native relation is satisfied and the reviewed one is not. -/
theorem BlursAt.satisfies {native reviewed : ArchDependency} {version : String} (h : BlursAt native reviewed version) :
    satisfiesArchDependency native version = true ∧ satisfiesArchDependency reviewed version = false := by
  obtain ⟨o, o', w, w', a, b, c, hno, hro, hnv, hrv, ha, hb, hc, ⟨hloose, hstrict, hbase⟩, hrel, heq⟩ := h
  obtain ⟨name, no, nv⟩ := native
  obtain ⟨name', ro, rv⟩ := reviewed
  simp only at hno hro hnv hrv
  subst hno hro hnv hrv
  have hcompare (d : PackageVersion) : comparePackageVersions c d = compareVersionBase c d := by
    rw [comparePackageVersions, hrel, Ordering.then_eq]
  constructor
  · refine (satisfiesArchDependency_iff ha).mpr ⟨c, hc, ?_⟩
    rw [hcompare, heq, Operator.holds_loose hloose]
  · rw [← Bool.not_eq_true, satisfiesArchDependency_iff hb]
    rintro ⟨c', hc', hholds⟩
    rw [hc] at hc'
    obtain rfl := Option.some.inj hc'
    rw [hcompare, Std.TransCmp.eq_trans heq hbase, Operator.holds_strict hstrict] at hholds
    cases hholds

/-- A package that carries a capability at a version satisfies what the version satisfies. -/
theorem Carries.satisfies {native : ArchDependency} {p : PackageMetadata} {version : String}
    (h : Carries p native.name version) (hv : satisfiesArchDependency native version = true)
    (hoperator : native.operator ≠ none) (hversion : native.version ≠ none) : satisfies native p = true := by
  obtain ⟨name, no, nv⟩ := native
  obtain ⟨o, rfl⟩ := Option.ne_none_iff_exists'.mp hoperator
  obtain ⟨w, rfl⟩ := Option.ne_none_iff_exists'.mp hversion
  exact satisfies_iff.mpr ⟨version, h, hv⟩

/-- Of one provide a package carries a name at one version. -/
theorem carries_one {p : PackageMetadata} {name version v value : String} (hne : p.name ≠ name)
    (hparse : parseArchRelation value = some ⟨name, some .eq, some version⟩)
    (h : Carries { p with provides := [value] } name v) : v = version := by
  rcases h with ⟨hp, -⟩ | ⟨-, value', hmem, hparse'⟩
  · exact absurd hp hne
  · obtain rfl := List.mem_singleton.mp hmem
    rw [hparse] at hparse'
    cases hparse'
    rfl

/-- Where an accepted package carries the capability at a version where the relations
blur, some accepted package satisfies the native relation alone. -/
theorem blurred_unsound {native reviewed : ArchDependency} {p : PackageMetadata} {version : String} (hp : Accepted p)
    (hname : native.name = reviewed.name) (hcarries : Carries p native.name version)
    (hblurs : BlursAt native reviewed version) :
    ∃ q, Accepted q ∧ satisfies native q = true ∧ satisfies reviewed q = false := by
  obtain ⟨hyes, hno⟩ := hblurs.satisfies
  obtain ⟨o, o', w, w', -, -, -, hno', hro, hnv, hrv, -⟩ := hblurs
  have honly {q : PackageMetadata} (hone : ∀ v, Carries q native.name v → v = version) : satisfies reviewed q = false := by
    obtain ⟨name', ro, rv⟩ := reviewed
    simp only at hname hro hrv
    subst hname hro hrv
    rw [← Bool.not_eq_true, satisfies_iff]
    rintro ⟨v, hv, hsat⟩
    rw [hone v hv, hno] at hsat
    cases hsat
  have hsatisfies {q : PackageMetadata} (hq : Carries q native.name version) : satisfies native q = true :=
    hq.satisfies hyes (by simp [hno']) (by simp [hnv])
  rcases hcarries with ⟨hp', hversion⟩ | ⟨hne, value, hmem, hparse⟩
  · refine ⟨p, hp, hsatisfies (.inl ⟨hp', hversion⟩), honly fun v hv => ?_⟩
    rcases hv with ⟨-, hv⟩ | ⟨hne, -⟩
    · exact hv.symm.trans hversion
    · exact absurd hp' hne
  · exact ⟨_, hp.one hmem, hsatisfies (.inr ⟨hne, value, List.mem_singleton_self _, hparse⟩),
      honly fun v hv => carries_one hne hparse hv⟩

/-- A relation that covers another is as strict for every accepted package exactly when no
accepted package carries the capability at a version, without a release, where they blur. -/
theorem archRelationCovers_sound {nativeValue reviewedValue : String} {native reviewed : ArchDependency}
    (hn : parseArchRelation nativeValue = some native) (hr : parseArchRelation reviewedValue = some reviewed)
    (hname : native.name = reviewed.name) (hcovers : archRelationCovers nativeValue reviewedValue = true) :
    (∀ value p, parsePackageMetadata value = some p → satisfies native p = true → satisfies reviewed p = true) ↔
      ∀ value p, parsePackageMetadata value = some p → ∀ version, Carries p native.name version →
        ¬BlursAt native reviewed version := by
  constructor
  · intro hsound value p hp version hcarries hblurs
    obtain ⟨q, hq, hyes, hno⟩ := blurred_unsound (parsePackageMetadata_accepted hp) hname hcarries hblurs
    have := hsound q.value q hq.parse hyes
    simp [hno] at this
  · intro hclear value p hp hsat
    by_cases hoperator : reviewed.operator = none
    · obtain ⟨name', ro, rv⟩ := reviewed
      simp only at hoperator hname
      subst hoperator
      exact satisfies_unversioned hsat hname
    · obtain ⟨o, o', w, w', a, b, hno, hro, hnv, hrv, ha, hb, hl, hu⟩ := covers_ranges hn hr hcovers hoperator
      obtain ⟨name, no, nv⟩ := native
      obtain ⟨name', ro, rv⟩ := reviewed
      simp only at hname hno hro hnv hrv
      subst hname hno hro hnv hrv
      obtain ⟨v, hcarries, hv⟩ := satisfies_iff.mp hsat
      obtain ⟨c, hc, hholds⟩ := (satisfiesArchDependency_iff ha).mp hv
      refine satisfies_iff.mpr ⟨v, hcarries, (satisfiesArchDependency_iff hb).mpr ⟨c, hc, ?_⟩⟩
      refine covers_holds hl hu (fun hrel heq hblurs => ?_) hholds
      exact hclear value p hp v hcarries ⟨o, o', w, w', a, b, c, rfl, rfl, rfl, rfl, ha, hb, hc, hblurs, hrel, heq⟩

/-- `foo>=2` covers `foo>=1`. -/
theorem archRelationCovers_sound_foo :
    (∀ value p, parsePackageMetadata value = some p → satisfies ⟨"foo", some .ge, some "2"⟩ p = true →
      satisfies ⟨"foo", some .ge, some "1"⟩ p = true) ↔
    ∀ value p, parsePackageMetadata value = some p → ∀ version, Carries p "foo" version →
      ¬BlursAt ⟨"foo", some .ge, some "2"⟩ ⟨"foo", some .ge, some "1"⟩ version :=
  @archRelationCovers_sound "foo>=2" "foo>=1" ⟨"foo", some .ge, some "2"⟩ ⟨"foo", some .ge, some "1"⟩ (by decide) (by decide)
    rfl (by decide)

/-- A package `foo` of the version 1.0, without a release. -/
def unreleasedFoo : PackageMetadata where
  name := "foo"
  fullVersion := "1.0"
  architecture := .x86_64
  installedSize := 0
  depends := []
  provides := []
  conflicts := []
  replaces := []

/-- `foo>=1.0-3` covers `foo>1.0-2`, and `foo` 1.0 satisfies only the first. -/
theorem unreleased_foo_blurs : ∃ native reviewed value p,
    parseArchRelation "foo>=1.0-3" = some native ∧ parseArchRelation "foo>1.0-2" = some reviewed ∧
    native.name = reviewed.name ∧ archRelationCovers "foo>=1.0-3" "foo>1.0-2" = true ∧
    parsePackageMetadata value = some p ∧ satisfies native p = true ∧ satisfies reviewed p = false := by
  have haccepted : Accepted unreleasedFoo :=
    ⟨by decide, by decide, by decide, by decide, by decide, by decide⟩
  exact ⟨⟨"foo", some .ge, some "1.0-3"⟩, ⟨"foo", some .gt, some "1.0-2"⟩, unreleasedFoo.value, unreleasedFoo, by decide,
    by decide, rfl, by decide, haccepted.parse, by decide, by decide⟩

end Omapkg.Server.Arch
