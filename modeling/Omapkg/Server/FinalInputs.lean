import Omapkg.Server.FrozenInputs
import Omapkg.Server.Qualification
/-!
# Inputs of a final universe

`finalProviderInputFindings` of `src/src/lib/server/cohort-qualification.ts`:
what was rebuilt must have been rebuilt with the final bytes of everything it
needs. Packages are compared by value, as no two of a universe are equal.
-/

namespace Omapkg.Server.Qualification

open Arch Owned
open Frozen (FrozenPackage PackageOrigin)

/-! ## Packages and locks -/

structure BuiltPackage extends QualificationPackage where
  buildId : Option String
  attempt : Option Nat
  inputLockSha256 : Option String
  deriving DecidableEq

/-- A row of `input_lock_packages`. -/
structure LockPackage where
  lockSha256 : String
  package : FrozenPackage
  deriving DecidableEq

/-- The lock of a package, if there is one and it is not empty. -/
def BuiltPackage.lock (item : BuiltPackage) : Option String := item.inputLockSha256.filter (· ≠ "")

/-- What `finding` takes for the architecture of its owner. -/
def findingArchitecture (owner : BuiltPackage) : Architecture :=
  match owner.architecture with
  | .aarch64 => .aarch64
  | .x86_64 | .any => .x86_64

inductive InputCause where
  | unbound | staleBytes | notRebuilt
  deriving DecidableEq, Repr

/-- What is found of a consumer and a provider. -/
structure InputReport where
  cause : InputCause
  consumer : BuiltPackage
  provider : BuiltPackage
  deriving DecidableEq

def InputReport.code (r : InputReport) : String :=
  match r.cause with
  | .unbound | .staleBytes => "stale-provider-input"
  | .notRebuilt => "reverse-rebuild-required"

def InputReport.finding (r : InputReport) : QualificationFinding :=
  let about (owner related : BuiltPackage) (reason : String) :=
    Qualification.finding (findingArchitecture owner) .abi r.code owner.toQualificationPackage reason
      (some related.toQualificationPackage) none
  match r.cause with
  | .unbound => about r.consumer r.provider
      s!"Consumer {r.consumer.name} was rebuilt without the final provider bytes for {r.provider.name}."
  | .staleBytes => about r.consumer r.provider
      s!"Consumer {r.consumer.name} was rebuilt from stale provider bytes for {r.provider.name}."
  | .notRebuilt => about r.provider r.consumer
      s!"Static/build consumer {r.consumer.name} uses changed provider bytes and must be rebuilt."

/-! ## Needs -/

section
variable (candidate baseline : List BuiltPackage) (rows : List LockPackage) (architecture : Architecture)

def entriesOf {β : Type} (entries : List (String × β)) (key : String) : List β := (entries.filter (·.1 = key)).map (·.2)

theorem mem_entriesOf {β : Type} {entries : List (String × β)} {key : String} {b : β} :
    b ∈ entriesOf entries key ↔ (key, b) ∈ entries := by
  simp [entriesOf]

def byCapability : List (String × BuiltPackage) :=
  candidate.flatMap fun provider => (relationNames (provider.name :: provider.metadata.provides)).map (·, provider)

def bySoname : List (String × BuiltPackage) :=
  candidate.flatMap fun provider => (sonames provider.toQualificationPackage).map (·, provider)

def byIdentity : List (String × BuiltPackage) :=
  candidate.flatMap fun provider => [(provider.pkgbase, provider), (provider.name, provider)]

/-- The provider is of the architecture and is what the relation asks for. -/
def meets (provider : BuiltPackage) (relation : ArchDependency) : Bool :=
  targetPackage provider.toQualificationPackage architecture &&
    satisfiesArchRelation relation provider.name provider.fullVersion provider.metadata.provides

def relationProviders (relation : String) : List BuiltPackage :=
  match parseArchRelation relation with
  | some parsed => (entriesOf (byCapability candidate) parsed.name).filter (meets architecture · parsed)
  | none => []

def providersForConsumer (consumer : BuiltPackage) : List BuiltPackage :=
  (consumer.metadata.depends.flatMap (relationProviders candidate architecture) ++
    ((elfFiles consumer.toQualificationPackage).flatMap neededBy).flatMap (entriesOf (bySoname candidate)) ++
    consumer.rebuildOn.flatMap (entriesOf (byIdentity candidate))).eraseDups

/-! ## Findings -/

/-- The consumer's lock has the provider's bytes. -/
def bound (consumer provider : BuiltPackage) : Bool :=
  consumer.lock.any fun lock => rows.any fun row =>
    row.lockSha256 = lock && row.package.name = provider.name && row.package.version = provider.fullVersion &&
      row.package.package.sha256 = provider.artifactSha256 && row.package.origin = .ownedBuild &&
      (row.package.architecture = artifactArchitecture architecture || row.package.architecture = .any)

def unboundReports : List InputReport :=
  (candidate.filter (·.origin = .candidate)).flatMap fun consumer =>
    ((providersForConsumer candidate architecture consumer).filter (!bound rows architecture consumer ·)).map
      (⟨.unbound, consumer, ·⟩)

/-- The packages whose locks have these bytes. -/
def inputEdges (digest : String) : List BuiltPackage :=
  ((rows.filter (·.package.package.sha256 = digest)).flatMap fun row =>
    (candidate ++ baseline).filter (·.lock = some row.lockSha256)).eraseDups

/-- The last of the baseline with the name. -/
def predecessor (provider : BuiltPackage) : Option BuiltPackage := baseline.reverse.find? (·.name = provider.name)

def providerDigests (provider : BuiltPackage) : List String :=
  (provider.artifactSha256 :: ((predecessor baseline provider).map (·.artifactSha256)).toList).eraseDups

def edgeReport (provider : BuiltPackage) (digest : String) (consumer : BuiltPackage) : Option InputReport :=
  if consumer.name = provider.name then none
  else if digest ≠ provider.artifactSha256 ∧ consumer.origin ≠ .candidate then some ⟨.notRebuilt, consumer, provider⟩
  else if digest ≠ provider.artifactSha256 ∧ consumer.origin = .candidate then some ⟨.staleBytes, consumer, provider⟩
  else none

def edgeReports : List InputReport :=
  (candidate.filter (·.origin = .candidate)).flatMap fun provider =>
    (providerDigests baseline provider).flatMap fun digest =>
      (inputEdges candidate baseline rows digest).filterMap (edgeReport provider digest)

def inputReports : List InputReport :=
  unboundReports candidate rows architecture ++ edgeReports candidate baseline rows

def finalProviderInputFindings : List QualificationFinding :=
  (inputReports candidate baseline rows architecture).map InputReport.finding

end

/-! ## What is reported -/

/-- A package of the universe that a relation is met by. -/
def MeetsRelation (candidate : List BuiltPackage) (architecture : Architecture) (relation : String) (provider : BuiltPackage) :
    Prop :=
  provider ∈ candidate ∧ ∃ parsed, parseArchRelation relation = some parsed ∧
    parsed.name ∈ relationNames (provider.name :: provider.metadata.provides) ∧ meets architecture provider parsed = true

/-- A package of the universe that another needs: by a relation, as a library, or by a rule to be rebuilt. -/
def Needs (candidate : List BuiltPackage) (architecture : Architecture) (consumer provider : BuiltPackage) : Prop :=
  (∃ relation ∈ consumer.metadata.depends, MeetsRelation candidate architecture relation provider) ∨
    provider ∈ candidate ∧
      ((∃ file ∈ elfFiles consumer.toQualificationPackage, ∃ needed ∈ neededBy file,
          needed ∈ sonames provider.toQualificationPackage) ∨
        provider.pkgbase ∈ consumer.rebuildOn ∨ provider.name ∈ consumer.rebuildOn)

/-- The lock has the bytes that a provider had before. -/
def HasPrevious (baseline : List BuiltPackage) (rows : List LockPackage) (consumer provider : BuiltPackage) : Prop :=
  ∃ old, predecessor baseline provider = some old ∧ old.artifactSha256 ≠ provider.artifactSha256 ∧
    ∃ row ∈ rows, row.package.package.sha256 = old.artifactSha256 ∧ consumer.lock = some row.lockSha256

section
variable {candidate baseline : List BuiltPackage} {rows : List LockPackage} {architecture : Architecture}

theorem mem_relationProviders {relation : String} {provider : BuiltPackage} :
    provider ∈ relationProviders candidate architecture relation ↔ MeetsRelation candidate architecture relation provider := by
  unfold relationProviders MeetsRelation
  split
  · next parsed hparsed =>
    simp only [List.mem_filter, mem_entriesOf, byCapability, List.mem_flatMap, List.mem_map, Prod.mk.injEq]
    constructor
    · rintro ⟨⟨p, hp, name, hname, rfl, rfl⟩, hmeets⟩
      exact ⟨hp, parsed, hparsed, hname, hmeets⟩
    · rintro ⟨hp, other, hother, hname, hmeets⟩
      rw [hparsed] at hother
      cases hother
      exact ⟨⟨provider, hp, parsed.name, hname, rfl, rfl⟩, hmeets⟩
  · next hnone => simp [hnone]

theorem mem_providersForConsumer {consumer provider : BuiltPackage} :
    provider ∈ providersForConsumer candidate architecture consumer ↔ Needs candidate architecture consumer provider := by
  unfold providersForConsumer Needs
  simp only [List.mem_eraseDups, List.mem_append, List.mem_flatMap, mem_relationProviders, mem_entriesOf, bySoname, byIdentity,
    List.mem_map, Prod.mk.injEq, List.mem_cons, List.not_mem_nil, or_false]
  constructor
  · rintro ((hrelation | ⟨needed, ⟨file, hfile, hneeded⟩, p, hp, name, hname, rfl, rfl⟩) |
      ⟨trigger, htrigger, p, hp, ⟨rfl, rfl⟩ | ⟨rfl, rfl⟩⟩)
    · exact .inl hrelation
    · exact .inr ⟨hp, .inl ⟨file, hfile, name, hneeded, hname⟩⟩
    · exact .inr ⟨hp, .inr (.inl htrigger)⟩
    · exact .inr ⟨hp, .inr (.inr htrigger)⟩
  · rintro (hrelation | ⟨hp, ⟨file, hfile, needed, hneeded, hname⟩ | hbase | hname⟩)
    · exact .inl (.inl hrelation)
    · exact .inl (.inr ⟨needed, ⟨file, hfile, hneeded⟩, provider, hp, needed, hname, rfl, rfl⟩)
    · exact .inr ⟨provider.pkgbase, hbase, provider, hp, .inl ⟨rfl, rfl⟩⟩
    · exact .inr ⟨provider.name, hname, provider, hp, .inr ⟨rfl, rfl⟩⟩

theorem mem_unboundReports {r : InputReport} : r ∈ unboundReports candidate rows architecture ↔
    r.cause = .unbound ∧ r.consumer ∈ candidate ∧ r.consumer.origin = .candidate ∧
      Needs candidate architecture r.consumer r.provider ∧ bound rows architecture r.consumer r.provider = false := by
  obtain ⟨cause, consumer, provider⟩ := r
  simp only [unboundReports, List.mem_flatMap, List.mem_filter, List.mem_map, decide_eq_true_eq, mem_providersForConsumer,
    Bool.not_eq_true', InputReport.mk.injEq]
  constructor
  · rintro ⟨c, ⟨hc, horigin⟩, p, ⟨hneeds, hbound⟩, rfl, rfl, rfl⟩
    exact ⟨rfl, hc, horigin, hneeds, hbound⟩
  · rintro ⟨rfl, hc, horigin, hneeds, hbound⟩
    exact ⟨consumer, ⟨hc, horigin⟩, provider, ⟨hneeds, hbound⟩, rfl, rfl, rfl⟩

theorem mem_inputEdges {digest : String} {consumer : BuiltPackage} :
    consumer ∈ inputEdges candidate baseline rows digest ↔ consumer ∈ candidate ++ baseline ∧
      ∃ row ∈ rows, row.package.package.sha256 = digest ∧ consumer.lock = some row.lockSha256 := by
  simp only [inputEdges, List.mem_eraseDups, List.mem_flatMap, List.mem_filter, decide_eq_true_eq]
  constructor
  · rintro ⟨row, ⟨hrow, hdigest⟩, hc, hlock⟩
    exact ⟨hc, row, hrow, hdigest, hlock⟩
  · rintro ⟨hc, row, hrow, hdigest, hlock⟩
    exact ⟨row, ⟨hrow, hdigest⟩, hc, hlock⟩

theorem mem_edgeReports {consumer provider : BuiltPackage} :
    ⟨.staleBytes, consumer, provider⟩ ∈ edgeReports candidate baseline rows ↔
      provider ∈ candidate ∧ provider.origin = .candidate ∧ consumer ∈ candidate ++ baseline ∧
        consumer.origin = .candidate ∧ consumer.name ≠ provider.name ∧ HasPrevious baseline rows consumer provider := by
  simp only [edgeReports, List.mem_flatMap, List.mem_filter, List.mem_filterMap, decide_eq_true_eq, providerDigests,
    List.mem_eraseDups, List.mem_cons, Option.mem_toList, Option.map_eq_some_iff, mem_inputEdges]
  constructor
  · rintro ⟨p, ⟨hp, horigin⟩, digest, hdigest, c, ⟨hc, row, hrow, hsha, hlock⟩, hreport⟩
    unfold edgeReport at hreport
    split at hreport
    · cases hreport
    · next hname =>
      split at hreport
      · cases hreport
      · split at hreport
        · next hstale =>
          cases hreport
          rcases hdigest with rfl | ⟨old, hold, rfl⟩
          · exact absurd rfl hstale.1
          · exact ⟨hp, horigin, hc, hstale.2, hname, old, hold, hstale.1, row, hrow, hsha, hlock⟩
        · cases hreport
  · rintro ⟨hp, horigin, hc, hcandidate, hname, old, hold, hne, row, hrow, hsha, hlock⟩
    refine ⟨provider, ⟨hp, horigin⟩, old.artifactSha256, .inr ⟨old, hold, rfl⟩, consumer, ⟨hc, row, hrow, hsha, hlock⟩, ?_⟩
    unfold edgeReport
    rw [if_neg hname, if_neg fun h => h.2 hcandidate, if_pos ⟨hne, hcandidate⟩]

/-! ## Siblings and alternatives -/

/-- Two outputs of one build attempt. -/
def SameAttempt (a b : BuiltPackage) : Prop :=
  a ≠ b ∧ ∃ build attempt, a.buildId = some build ∧ b.buildId = some build ∧ a.attempt = some attempt ∧ b.attempt = some attempt

/-- Two packages of the universe that meet one dependency of the consumer, a
relation or a library. -/
def Alternatives (candidate : List BuiltPackage) (architecture : Architecture) (consumer provider other : BuiltPackage) :
    Prop :=
  (∃ relation ∈ consumer.metadata.depends,
      MeetsRelation candidate architecture relation provider ∧ MeetsRelation candidate architecture relation other) ∨
    provider ∈ candidate ∧ other ∈ candidate ∧
      ∃ file ∈ elfFiles consumer.toQualificationPackage, ∃ needed ∈ neededBy file,
        needed ∈ sonames provider.toQualificationPackage ∧ needed ∈ sonames other.toQualificationPackage

theorem Alternatives.needs {consumer provider other : BuiltPackage}
    (h : Alternatives candidate architecture consumer provider other) : Needs candidate architecture consumer provider := by
  rcases h with ⟨relation, hrelation, hprovider, -⟩ | ⟨hp, -, file, hfile, needed, hneeded, hname, -⟩
  · exact .inl ⟨relation, hrelation, hprovider⟩
  · exact .inr ⟨hp, .inl ⟨file, hfile, needed, hneeded, hname⟩⟩

/-- What the findings should be: nothing stale between outputs of one attempt, and
nothing stale of a dependency that a package in the lock meets. -/
structure Lenient (candidate baseline : List BuiltPackage) (rows : List LockPackage) (architecture : Architecture) : Prop where
  siblings : ∀ r ∈ inputReports candidate baseline rows architecture, r.code = "stale-provider-input" →
    ¬SameAttempt r.consumer r.provider
  alternatives : ∀ r ∈ inputReports candidate baseline rows architecture, r.code = "stale-provider-input" →
    ∀ other, Alternatives candidate architecture r.consumer r.provider other →
      bound rows architecture r.consumer other = false

/-- What the packages and the locks have to be for that. -/
structure Prepared (candidate baseline : List BuiltPackage) (rows : List LockPackage) (architecture : Architecture) : Prop where
  siblingsLocked : ∀ consumer ∈ candidate, consumer.origin = .candidate → ∀ provider, SameAttempt consumer provider →
    Needs candidate architecture consumer provider → bound rows architecture consumer provider = true
  siblingsNew : ∀ consumer ∈ candidate ++ baseline, consumer.origin = .candidate → ∀ provider ∈ candidate,
    provider.origin = .candidate → consumer.name ≠ provider.name → SameAttempt consumer provider →
      ¬HasPrevious baseline rows consumer provider
  alternativesLocked : ∀ consumer ∈ candidate, consumer.origin = .candidate → ∀ provider other,
    Alternatives candidate architecture consumer provider other → bound rows architecture consumer other = true →
      bound rows architecture consumer provider = true
  alternativesNew : ∀ consumer ∈ candidate ++ baseline, consumer.origin = .candidate → ∀ provider ∈ candidate,
    provider.origin = .candidate → consumer.name ≠ provider.name → ∀ other,
      Alternatives candidate architecture consumer provider other → bound rows architecture consumer other = true →
        ¬HasPrevious baseline rows consumer provider

theorem unbound_reported {consumer provider : BuiltPackage} (hconsumer : consumer ∈ candidate)
    (horigin : consumer.origin = .candidate) (hneeds : Needs candidate architecture consumer provider)
    (hbound : bound rows architecture consumer provider = false) :
    ⟨.unbound, consumer, provider⟩ ∈ inputReports candidate baseline rows architecture :=
  List.mem_append_left _ (mem_unboundReports.mpr ⟨rfl, hconsumer, horigin, hneeds, hbound⟩)

theorem stale_reported {consumer provider : BuiltPackage} (hconsumer : consumer ∈ candidate ++ baseline)
    (horigin : consumer.origin = .candidate) (hprovider : provider ∈ candidate) (hrebuilt : provider.origin = .candidate)
    (hname : consumer.name ≠ provider.name) (hprevious : HasPrevious baseline rows consumer provider) :
    ⟨.staleBytes, consumer, provider⟩ ∈ inputReports candidate baseline rows architecture :=
  List.mem_append_right _ (mem_edgeReports.mpr ⟨hprovider, hrebuilt, hconsumer, horigin, hname, hprevious⟩)

/-- A report of stale inputs is of bytes that are not in the lock, or of earlier bytes that are. -/
theorem stale_cases {r : InputReport} (hr : r ∈ inputReports candidate baseline rows architecture)
    (hcode : r.code = "stale-provider-input") :
    (r.consumer ∈ candidate ∧ r.consumer.origin = .candidate ∧ Needs candidate architecture r.consumer r.provider ∧
        bound rows architecture r.consumer r.provider = false) ∨
      (r.provider ∈ candidate ∧ r.provider.origin = .candidate ∧ r.consumer ∈ candidate ++ baseline ∧
        r.consumer.origin = .candidate ∧ r.consumer.name ≠ r.provider.name ∧ HasPrevious baseline rows r.consumer r.provider) := by
  rcases List.mem_append.mp hr with hr | hr
  · exact .inl (mem_unboundReports.mp hr).2
  · obtain ⟨cause, consumer, provider⟩ := r
    cases cause with
    | staleBytes => exact .inr (mem_edgeReports.mp hr)
    | notRebuilt =>
      have hcodes : "reverse-rebuild-required" ≠ "stale-provider-input" := by decide
      exact absurd hcode hcodes
    | unbound =>
      -- an edge is never reported as unbound
      simp only [edgeReports, List.mem_flatMap, List.mem_filterMap] at hr
      obtain ⟨p, -, digest, -, c, -, hreport⟩ := hr
      unfold edgeReport at hreport
      split_ifs at hreport <;> cases hreport

/-- The findings are as they should be just if no package lacks a sibling or one
of several alternatives in its lock, and none has earlier bytes of them. -/
theorem finalProviderInputFindings_lenient_iff (candidate baseline : List BuiltPackage) (rows : List LockPackage)
    (architecture : Architecture) :
    Lenient candidate baseline rows architecture ↔ Prepared candidate baseline rows architecture := by
  constructor
  · intro h
    refine ⟨?_, ?_, ?_, ?_⟩
    · intro consumer hconsumer horigin provider hsame hneeds
      by_contra hbound
      exact h.siblings _ (unbound_reported hconsumer horigin hneeds (Bool.eq_false_iff.mpr hbound)) rfl hsame
    · intro consumer hconsumer horigin provider hprovider hrebuilt hname hsame hprevious
      exact h.siblings _ (stale_reported hconsumer horigin hprovider hrebuilt hname hprevious) rfl hsame
    · intro consumer hconsumer horigin provider other halternatives hother
      by_contra hbound
      have hreport : ⟨.unbound, consumer, provider⟩ ∈ inputReports candidate baseline rows architecture :=
        unbound_reported hconsumer horigin halternatives.needs (Bool.eq_false_iff.mpr hbound)
      rw [h.alternatives _ hreport rfl other halternatives] at hother
      exact Bool.false_ne_true hother
    · intro consumer hconsumer horigin provider hprovider hrebuilt hname other halternatives hother hprevious
      have hreport : ⟨.staleBytes, consumer, provider⟩ ∈ inputReports candidate baseline rows architecture :=
        stale_reported hconsumer horigin hprovider hrebuilt hname hprevious
      rw [h.alternatives _ hreport rfl other halternatives] at hother
      exact Bool.false_ne_true hother
  · intro h
    refine ⟨fun r hr hcode hsame => ?_, fun r hr hcode other halternatives => ?_⟩
    · rcases stale_cases hr hcode with ⟨hc, horigin, hneeds, hbound⟩ | ⟨hp, hrebuilt, hc, horigin, hname, hprevious⟩
      · rw [h.siblingsLocked _ hc horigin _ hsame hneeds] at hbound
        exact Bool.false_ne_true hbound.symm
      · exact h.siblingsNew _ hc horigin _ hp hrebuilt hname hsame hprevious
    · rw [Bool.eq_false_iff]
      intro hother
      rcases stale_cases hr hcode with ⟨hc, horigin, -, hbound⟩ | ⟨hp, hrebuilt, hc, horigin, hname, hprevious⟩
      · rw [h.alternativesLocked _ hc horigin _ other halternatives hother] at hbound
        exact Bool.false_ne_true hbound.symm
      · exact h.alternativesNew _ hc horigin _ hp hrebuilt hname other halternatives hother hprevious

end

/-! ## A split package -/

/-- An output of the one build attempt of `gcc`. -/
def gccOutput (name : String) (depends : List String) : BuiltPackage where
  pkgbase := "gcc"
  name := name
  fullVersion := "14-1"
  architecture := .x86_64
  artifactSha256 := name
  metadata := ⟨depends, []⟩
  abi := none
  origin := .candidate
  rebuildOn := []
  buildId := some "build"
  attempt := some 1
  inputLockSha256 := some "lock"

theorem gccOutputs_reported :
    ⟨.unbound, gccOutput "gcc" ["gcc-libs=14-1"], gccOutput "gcc-libs" []⟩ ∈
      inputReports [gccOutput "gcc" ["gcc-libs=14-1"], gccOutput "gcc-libs" []] [] [] .x86_64 := by
  decide +kernel

/-- A compiler that depends on the libraries that are built with it. -/
theorem split_package_refused :
    ¬∀ candidate baseline rows architecture, Lenient candidate baseline rows architecture := by
  intro h
  refine (h _ _ _ _).siblings _ gccOutputs_reported rfl ⟨by decide +kernel, "build", 1, rfl, rfl, rfl, rfl⟩

end Omapkg.Server.Qualification
