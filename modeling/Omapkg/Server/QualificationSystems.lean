import Omapkg.Server.QualificationAbi
/-!
# Qualifying against several systems

`loadPackages` and `qualifyCohort` of `cohort-qualification.ts`: the packages of
all pinned universes become one map, in which the packages of one system may
satisfy what another lacks.
-/

namespace Omapkg.Server.Qualification

open Arch Owned

def maxUniversePackages : Nat := 100000

/-! ## What is read -/

/-- A row of `distribution_release_candidates` of the kind `system`, signed or active. -/
structure SystemRelease where
  releaseId : String
  manifestSha256 : String
  sequence : Nat

structure QualifyState where
  universes : List UniverseRow
  universePackages : List UniversePackage
  artifacts : List StoredArtifact
  releases : List SystemRelease

structure CohortManifest where
  parentSnapshot : Option String
  compatibleSystems : List String

structure CohortRow where
  id : String
  currentRevision : Nat
  manifestSha256 : String
  manifest : CohortManifest

/-- A verified output of one of the cohort's builds. -/
structure OutputRecord where
  pkgbase : String
  name : String
  fullVersion : String
  architecture : ArtifactArchitecture
  artifactSha256 : String
  metadata : PackageRelations
  abi : Option QualificationAbi
  rebuildOn : List String

/-- What the qualification is given. `outputs` reads the cohort's builds, each of
which is verified, and `inventory` the ABI inventory of an artifact; `indexed` and
`providerInputs` are the findings of `indexedAbiFindings` and
`finalProviderInputFindings`; `saved` is a stored report of the same input. -/
structure QualifyEnv where
  collate : String → String → Bool
  outputs : CohortRow → Architecture → Except PolicyError (List OutputRecord)
  inventory : StoredArtifact → Except PolicyError (Option QualificationAbi)
  indexed : List QualificationPackage → List QualificationPackage → Architecture → Except PolicyError (List QualificationFinding)
  providerInputs : List QualificationPackage → List QualificationPackage → Architecture →
    Except PolicyError (List QualificationFinding)
  saved : CohortRow → Architecture → Except PolicyError (Option QualificationReport)

/-! ## Pinned universes -/

/-- What names a universe. -/
structure UniverseRef where
  lane : OwnedLane
  releaseId : String
  deriving DecidableEq

/-- `addDirect`. -/
def directRefs (s : QualifyState) (value : String) : List UniverseRef :=
  (s.universes.filter fun u => u.status.live && (u.rootSha256 = value || u.releaseId = value)).map fun u =>
    ⟨u.lane, u.releaseId⟩

def parentRefs (s : QualifyState) (manifest : CohortManifest) : List UniverseRef :=
  match manifest.parentSnapshot.filter (· ≠ "") with
  | some value => directRefs s value
  | none => []

/-- The newest release of a manifest. -/
def systemRelease (s : QualifyState) (digest : String) : Option SystemRelease :=
  ((s.releases.filter (·.manifestSha256 = digest)).insertionSort fun a b => a.sequence ≥ b.sequence).head?

def systemRef (s : QualifyState) (digest : String) : Except PolicyError UniverseRef :=
  match systemRelease s digest with
  | some release => .ok ⟨.system, release.releaseId⟩
  | none => reject s!"Compatible system manifest {digest} is unavailable." 409

def pinnedRow (s : QualifyState) (ref : UniverseRef) : Except PolicyError UniverseRow :=
  match s.universes.find? fun u => u.lane = ref.lane && u.releaseId = ref.releaseId && u.status.live with
  | some row => .ok row
  | none => reject s!"Pinned owned {ref.lane.text} universe {ref.releaseId} is unavailable." 409

def pinnedUniverses (env : QualifyEnv) (s : QualifyState) (current : CohortRow) : Except PolicyError (List UniverseRow) := do
  let systems ← current.manifest.compatibleSystems.mapM (systemRef s)
  let universes ← (parentRefs s current.manifest ++ systems).eraseDups.mapM (pinnedRow s)
  if universes = [] then reject "An immutable owned parent universe is required for candidate qualification." 409
  else
    .ok (universes.insertionSort fun a b =>
      if a.lane = b.lane then env.collate a.releaseId b.releaseId = true else env.collate a.lane.text b.lane.text = true)

/-! ## Packages -/

/-- The artifacts of a universe, in their order. -/
def universeArtifacts (s : QualifyState) (universe' : UniverseRow) : List StoredArtifact :=
  ((s.universePackages.filter (·.universeId = universe'.id)).insertionSort fun a b => a.ordinal ≤ b.ordinal).flatMap fun p =>
    s.artifacts.filter (·.ownedArtifactId = p.artifactId)

def pageSize : Nat := 256

/-- A page of `ownedRepositoryUniversePages`. -/
def universePage (s : QualifyState) (universe' : UniverseRow) (k : Nat) : Except PolicyError (List StoredArtifact) :=
  let rows := ((universeArtifacts s universe').drop (k * pageSize)).take pageSize
  if rows = [] then reject "Owned repository universe page is incomplete." 409 else .ok rows

/-- All pages, which the row is read again for. -/
def universePages (s : QualifyState) (ref : UniverseRef) : Except PolicyError (List StoredArtifact) := do
  let _ ← releaseId ref.lane ref.releaseId
  match s.universes.find? fun u => u.lane = ref.lane && u.releaseId = ref.releaseId && u.status.live with
  | none => reject "Owned repository universe is unavailable." 404
  | some row =>
    let pages ← (List.range ((row.packageCount + (pageSize - 1)) / pageSize)).mapM (universePage s row)
    .ok pages.flatten

def ownedPackage (env : QualifyEnv) (value : StoredArtifact) : Except PolicyError QualificationPackage := do
  let abi ← env.inventory value
  .ok ⟨value.pkgbase, value.name, value.version, value.architecture, value.artifactSha256,
    ⟨value.metadata.depends, value.metadata.provides⟩, abi, .owned, value.rebuildOn⟩

/-- The packages of one universe for a target. -/
def universeItems (env : QualifyEnv) (s : QualifyState) (architecture : Architecture) (ref : UniverseRef) :
    Except PolicyError (List QualificationPackage) := do
  let artifacts ← universePages s ref
  (artifacts.filter (·.targetArchitecture = architecture)).mapM (ownedPackage env)

/-- `packages.set`, whose key is the name, for one target. -/
def setPackage (packages : JsMap QualificationPackage) (item : QualificationPackage) : JsMap QualificationPackage :=
  packages.set item.name item

def ownedUniversePackages (env : QualifyEnv) (s : QualifyState) (current : CohortRow) (architecture : Architecture) :
    Except PolicyError (List QualificationPackage) := do
  let universes ← pinnedUniverses env s current
  let items ← universes.mapM fun u => universeItems env s architecture ⟨u.lane, u.releaseId⟩
  let packages := items.flatten.foldl setPackage []
  if packages = [] then reject s!"Owned parent universe has no {architecture.text} packages." 409
  else .ok (packages.map (·.2))

def outputPackage (o : OutputRecord) : QualificationPackage :=
  ⟨o.pkgbase, o.name, o.fullVersion, o.architecture, o.artifactSha256, o.metadata, o.abi, .candidate, o.rebuildOn⟩

/-- An output takes the place of the first package of its name. -/
def putOutput : List QualificationPackage → QualificationPackage → List QualificationPackage
  | [], item => [item]
  | old :: rest, item => if old.name = item.name then item :: rest else old :: putOutput rest item

structure LoadedPackages where
  candidate : List QualificationPackage
  baseline : List QualificationPackage

def loadPackages (env : QualifyEnv) (s : QualifyState) (current : CohortRow) (architecture : Architecture) :
    Except PolicyError LoadedPackages := do
  let baseline ← ownedUniversePackages env s current architecture
  let outputs ← env.outputs current architecture
  let candidate := (outputs.map outputPackage).foldl putOutput baseline
  if candidate.length > maxUniversePackages then reject "Candidate dependency universe exceeds 100,000 packages." 409
  else if (candidate.map fun item => (records item).length).sum > maxIndexRecords then
    reject "Candidate ABI index is unavailable within the bounded qualification memory budget." 409
  else .ok ⟨candidate, baseline⟩

/-! ## Qualifying -/

/-- The report without the ABI findings of the universe, which the index's stand for. -/
def withIndexed (report : QualificationReport) (indexed : List QualificationFinding) : QualificationReport :=
  { report with
    findings := (report.findings.filter (·.kind = .dependency) ++ indexed).take maxFindings
    truncated := report.truncated || report.findings.length + indexed.length > maxFindings }

def withInputs (report : QualificationReport) (inputs : List QualificationFinding) : QualificationReport :=
  if inputs = [] then report
  else
    { report with
      findings := (report.findings ++ inputs).take maxFindings
      truncated := report.truncated || report.findings.length + inputs.length > maxFindings }

def qualificationInput (current : CohortRow) (architecture : Architecture) (loaded : LoadedPackages) : QualificationInput :=
  ⟨current.id, current.currentRevision, current.manifestSha256, architecture, loaded.candidate, loaded.baseline⟩

def qualifyCohortUncached (env : QualifyEnv) (s : QualifyState) (current : CohortRow) (architecture : Architecture) :
    Except PolicyError QualificationReport := do
  let loaded ← loadPackages env s current architecture
  let indexed ← env.indexed loaded.candidate loaded.baseline architecture
  let inputs ← env.providerInputs loaded.candidate loaded.baseline architecture
  .ok (withInputs (withIndexed (qualifyCandidateUniverse (qualificationInput current architecture loaded)) indexed) inputs)

def qualifyCohort (env : QualifyEnv) (s : QualifyState) (current : CohortRow) (architecture : Architecture) :
    Except PolicyError QualificationReport := do
  let saved ← env.saved current architecture
  match saved with
  | some report => .ok report
  | none => qualifyCohortUncached env s current architecture

/-! ## Where packages come from -/

/-- A package of the universe of a reference, for a target. -/
def InUniverse (env : QualifyEnv) (s : QualifyState) (architecture : Architecture) (ref : UniverseRef)
    (item : QualificationPackage) : Prop :=
  ∃ items, universeItems env s architecture ref = .ok items ∧ item ∈ items

theorem mem_setPackages {items : List QualificationPackage} {m : JsMap QualificationPackage} {item : QualificationPackage}
    (h : item ∈ (items.foldl setPackage m).map (·.2)) : item ∈ m.map (·.2) ∨ item ∈ items := by
  induction items generalizing m with
  | nil => exact .inl h
  | cons first rest ih =>
    rcases ih h with hset | hrest
    · unfold setPackage JsMap.set at hset
      split at hset
      · obtain ⟨e, he, rfl⟩ := List.mem_map.mp hset
        obtain ⟨old, hold, rfl⟩ := List.mem_map.mp he
        by_cases hname : old.1 = first.name
        · exact .inr (by simp [hname])
        · exact .inl (List.mem_map.mpr ⟨old, hold, by simp [hname]⟩)
      · rw [List.map_append, List.mem_append] at hset
        rcases hset with hset | hset
        · exact .inl hset
        · rw [List.map_singleton, List.mem_singleton] at hset
          exact .inr (hset ▸ List.mem_cons_self)
    · exact .inr (List.mem_cons_of_mem _ hrest)

theorem mem_putOutput {l : List QualificationPackage} {item p : QualificationPackage} (h : p ∈ putOutput l item) :
    p ∈ l ∨ p = item := by
  induction l with
  | nil => exact .inr (List.mem_singleton.mp h)
  | cons old rest ih =>
    unfold putOutput at h
    split at h
    · rcases List.mem_cons.mp h with rfl | h
      · exact .inr rfl
      · exact .inl (List.mem_cons_of_mem _ h)
    · rcases List.mem_cons.mp h with rfl | h
      · exact .inl List.mem_cons_self
      · rcases ih h with h | h
        · exact .inl (List.mem_cons_of_mem _ h)
        · exact .inr h

theorem mem_putOutputs {outputs l : List QualificationPackage} {p : QualificationPackage}
    (h : p ∈ outputs.foldl putOutput l) : p ∈ l ∨ p ∈ outputs := by
  induction outputs generalizing l with
  | nil => exact .inl h
  | cons item rest ih =>
    rcases ih h with h | h
    · rcases mem_putOutput h with h | rfl
      · exact .inl h
      · exact .inr List.mem_cons_self
    · exact .inr (List.mem_cons_of_mem _ h)

/-- A pinned universe is the parent's or one of a compatible system. -/
theorem mem_pinned {env : QualifyEnv} {s : QualifyState} {current : CohortRow} {universes : List UniverseRow}
    (h : pinnedUniverses env s current = .ok universes) {u : UniverseRow} (hu : u ∈ universes) :
    (⟨u.lane, u.releaseId⟩ : UniverseRef) ∈ parentRefs s current.manifest ∨
      ∃ digest ∈ current.manifest.compatibleSystems, systemRef s digest = .ok ⟨u.lane, u.releaseId⟩ := by
  obtain ⟨systems, hsystems, h⟩ := Fallible.bind_ok.mp h
  obtain ⟨rows, hrows, h⟩ := Fallible.bind_ok.mp h
  obtain ⟨-, h⟩ := Fallible.guard_ok.mp h
  cases h
  obtain ⟨ref, href, hrow⟩ := Fallible.mem_mapM hrows ((List.mem_insertionSort _).mp hu)
  have hsame : ref = ⟨u.lane, u.releaseId⟩ := by
    unfold pinnedRow at hrow
    split at hrow
    · next row hfind =>
      cases hrow
      have hp := List.find?_some hfind
      simp only [Bool.and_eq_true, decide_eq_true_eq] at hp
      rw [hp.1.1, hp.1.2]
    · cases hrow
  rw [List.mem_eraseDups, List.mem_append] at href
  rw [← hsame]
  rcases href with hparent | hsystem
  · exact .inl hparent
  · obtain ⟨digest, hdigest, hsystem⟩ := Fallible.mem_mapM hsystems hsystem
    exact .inr ⟨digest, hdigest, hsystem⟩

theorem mem_owned {env : QualifyEnv} {s : QualifyState} {current : CohortRow} {architecture : Architecture}
    {baseline : List QualificationPackage} (h : ownedUniversePackages env s current architecture = .ok baseline)
    {p : QualificationPackage} (hp : p ∈ baseline) :
    (∃ ref ∈ parentRefs s current.manifest, InUniverse env s architecture ref p) ∨
      ∃ digest ∈ current.manifest.compatibleSystems, ∃ ref, systemRef s digest = .ok ref ∧
        InUniverse env s architecture ref p := by
  obtain ⟨universes, hpinned, h⟩ := Fallible.bind_ok.mp h
  obtain ⟨items, hitems, h⟩ := Fallible.bind_ok.mp h
  obtain ⟨-, h⟩ := Fallible.guard_ok.mp h
  cases h
  have hflat := (mem_setPackages hp).resolve_left List.not_mem_nil
  obtain ⟨page, hpage, hp⟩ := List.mem_flatten.mp hflat
  obtain ⟨u, hu, huitems⟩ := Fallible.mem_mapM hitems hpage
  rcases mem_pinned hpinned hu with hparent | ⟨digest, hdigest, href⟩
  · exact .inl ⟨_, hparent, page, huitems, hp⟩
  · exact .inr ⟨digest, hdigest, _, href, page, huitems, hp⟩

/-- A package of the candidate universe is an output, or one of a pinned universe. -/
theorem mem_loaded {env : QualifyEnv} {s : QualifyState} {current : CohortRow} {architecture : Architecture}
    {loaded : LoadedPackages} (h : loadPackages env s current architecture = .ok loaded) {p : QualificationPackage}
    (hp : p ∈ loaded.candidate) :
    p.origin = .candidate ∨ (∃ ref ∈ parentRefs s current.manifest, InUniverse env s architecture ref p) ∨
      ∃ digest ∈ current.manifest.compatibleSystems, ∃ ref, systemRef s digest = .ok ref ∧
        InUniverse env s architecture ref p := by
  obtain ⟨baseline, hbaseline, h⟩ := Fallible.bind_ok.mp h
  obtain ⟨outputs, -, h⟩ := Fallible.bind_ok.mp h
  obtain ⟨-, h⟩ := Fallible.guard_ok.mp h
  obtain ⟨-, h⟩ := Fallible.guard_ok.mp h
  cases h
  rcases mem_putOutputs hp with hp | hp
  · exact .inr (mem_owned hbaseline hp)
  · obtain ⟨o, -, rfl⟩ := List.mem_map.mp hp
    exact .inl rfl

/-! ## Satisfied dependencies -/

/-- The package satisfies the relation. -/
def Satisfies (architecture : Architecture) (relation : String) (p : QualificationPackage) : Prop :=
  ∃ dependency, parseArchRelation relation = some dependency ∧ targetPackage p architecture = true ∧
    satisfiesArchRelation dependency p.name p.fullVersion p.metadata.provides = true

/-- The candidate's own outputs. -/
def candidateOutputs (architecture : Architecture) (loaded : LoadedPackages) : List QualificationPackage :=
  (loaded.candidate.filter (targetPackage · architecture)).filter (·.origin = .candidate)

/-- With one system only: a package of it, of the parent or of the candidate satisfies the relation. -/
def SatisfiedWith (env : QualifyEnv) (s : QualifyState) (current : CohortRow) (architecture : Architecture)
    (loaded : LoadedPackages) (system : UniverseRef) (relation : String) : Prop :=
  ∃ p, Satisfies architecture relation p ∧
    (InUniverse env s architecture system p ∨ (∃ ref ∈ parentRefs s current.manifest, InUniverse env s architecture ref p) ∨
      p ∈ candidateOutputs architecture loaded)

theorem satisfies_of_isSatisfied {architecture : Architecture} {candidate : List QualificationPackage} {relation : String}
    (h : isSatisfied architecture candidate relation = true) : ∃ p ∈ candidate, Satisfies architecture relation p := by
  unfold isSatisfied at h
  split at h
  · cases h
  · next dependency hparse =>
    obtain ⟨p, hp⟩ := List.exists_mem_of_ne_nil _ (of_decide_eq_true h)
    obtain ⟨hlookup, hsatisfies⟩ := List.mem_filter.mp hp
    obtain ⟨entry, hentry, rfl⟩ := List.mem_map.mp hlookup
    obtain ⟨item, hitem, hname⟩ := List.mem_flatMap.mp (List.mem_filter.mp hentry).1
    obtain ⟨name, -, rfl⟩ := List.mem_map.mp hname
    rw [Bool.and_eq_true] at hsatisfies
    exact ⟨item, hitem, dependency, hparse, hsatisfies⟩

theorem foldl_pushFinding_keeps {values : List QualificationFinding} {found : List QualificationFinding × Bool}
    {f : QualificationFinding} (hf : f ∈ found.1) : f ∈ (values.foldl pushFinding found).1 := by
  induction values generalizing found with
  | nil => exact hf
  | cons value rest ih => exact ih (pushFinding_keeps hf)

theorem duplicateFindings_kind {architecture : Architecture} {earlier items : List QualificationPackage}
    {f : QualificationFinding} (hf : f ∈ duplicateFindings architecture earlier items) : f.kind = .dependency := by
  induction items generalizing earlier with
  | nil => cases hf
  | cons item rest ih =>
    unfold duplicateFindings at hf
    split at hf
    · rcases List.mem_cons.mp hf with rfl | hf
      · rfl
      · exact ih hf
    · exact ih hf

theorem dependencyFindings_kind {architecture : Architecture} {candidate : List QualificationPackage}
    {f : QualificationFinding} (hf : f ∈ dependencyFindings architecture candidate) : f.kind = .dependency := by
  obtain ⟨owner, -, hf⟩ := List.mem_flatMap.mp hf
  obtain ⟨relation, -, rfl⟩ := List.mem_map.mp hf
  rfl

/-- The first finding is there, whatever is left out. -/
theorem head_mem_findings {input : QualificationInput} {f : QualificationFinding} {rest : List QualificationFinding}
    (h : allFindings input = f :: rest) : f ∈ (qualifyCandidateUniverse input).findings := by
  unfold qualifyCandidateUniverse
  simp only
  rw [h]
  show f ∈ (rest.foldl pushFinding (pushFinding ([], false) f)).1
  apply foldl_pushFinding_keeps
  unfold pushFinding
  rw [if_neg List.not_mem_nil, if_neg (by decide)]
  exact List.mem_singleton_self f

/-- Dependencies are looked at first, so a report without findings of them has found none. -/
theorem no_dependencyFindings {input : QualificationInput}
    (h : ∀ f ∈ (qualifyCandidateUniverse input).findings, f.kind ≠ .dependency) :
    dependencyFindings input.architecture input.candidates = [] := by
  by_contra hsome
  cases hfirst : duplicateFindings input.architecture [] input.candidates ++
      dependencyFindings input.architecture input.candidates with
  | nil => exact hsome (List.append_eq_nil_iff.mp hfirst).2
  | cons f rest =>
    have hall : allFindings input = f :: (rest ++ elfFindings input.architecture input.candidates ++
        input.candidates.flatMap (providerFindings input)) := by
      unfold allFindings
      rw [hfirst]
      simp
    have hf : f ∈ duplicateFindings input.architecture [] input.candidates ++
        dependencyFindings input.architecture input.candidates := hfirst ▸ List.mem_cons_self
    refine h f (head_mem_findings hall) ?_
    rcases List.mem_append.mp hf with hf | hf
    · exact duplicateFindings_kind hf
    · exact dependencyFindings_kind hf

theorem take_nil {l : List QualificationFinding} (h : l.take maxFindings = []) : l = [] := by
  rcases List.take_eq_nil_iff.mp h with h | h
  · cases h
  · exact h

/-- Where nothing is found, every dependency of the universe is satisfied in it. -/
theorem satisfied_of_nothing {input : QualificationInput} {indexed inputs : List QualificationFinding}
    (h : (withInputs (withIndexed (qualifyCandidateUniverse input) indexed) inputs).findings = [])
    {owner : QualificationPackage} (howner : owner ∈ input.candidates) {relation : String}
    (hrelation : relation ∈ owner.metadata.depends) : isSatisfied input.architecture input.candidates relation = true := by
  have hindexed : (withIndexed (qualifyCandidateUniverse input) indexed).findings = [] := by
    unfold withInputs at h
    split at h
    · exact h
    · exact (List.append_eq_nil_iff.mp (take_nil h)).1
  have hfilter := (List.append_eq_nil_iff.mp (take_nil hindexed)).1
  have hnone := no_dependencyFindings fun f hf hkind =>
    List.filter_eq_nil_iff.mp hfilter f hf (decide_eq_true hkind)
  have howned := List.flatMap_eq_nil_iff.mp hnone owner howner
  have hunsatisfied := List.filter_eq_nil_iff.mp (List.map_eq_nil_iff.mp howned) relation hrelation
  simpa using hunsatisfied

/-! ## Two systems -/

def sampleArtifact (id name : String) : StoredArtifact :=
  ⟨⟨{ samplePackage with name := name, artifactFilename := name, collection := .core }, id⟩, 0⟩

/-- Two systems of one package each. -/
def sampleSystems (first second : String) : QualifyState where
  universes := [⟨"u1", .system, "4.0.1", "r1", 1, .published, 0⟩, ⟨"u2", .system, "4.0.2", "r2", 1, .published, 0⟩]
  universePackages := [⟨"u1", 0, "a1", .core, .x86_64⟩, ⟨"u2", 0, "a2", .core, .x86_64⟩]
  artifacts := [sampleArtifact "a1" first, sampleArtifact "a2" second]
  releases := [⟨"4.0.1", "m1", 1⟩, ⟨"4.0.2", "m2", 2⟩]

/-- A cohort whose only output depends on `tool`. -/
def sampleQualifyEnv : QualifyEnv where
  collate a b := a ≤ b
  outputs _ _ := .ok [⟨"app", "app", "1-1", .x86_64, "06", ⟨["tool"], []⟩, none, []⟩]
  inventory _ := .ok none
  indexed _ _ _ := .ok []
  providerInputs _ _ _ := .ok []
  saved _ _ := .ok none

def sampleCohort : CohortRow := ⟨"cohort", 1, "03", ⟨none, ["m1", "m2"]⟩⟩

def sampleOwned (name : String) : QualificationPackage :=
  ⟨"a", name, "1", .x86_64, "00", ⟨[], []⟩, none, .owned, []⟩

def sampleOutput : QualificationPackage := ⟨"app", "app", "1-1", .x86_64, "06", ⟨["tool"], []⟩, none, .candidate, []⟩

theorem sample_second (first second : String) :
    universeItems sampleQualifyEnv (sampleSystems first second) .x86_64 ⟨.system, "4.0.2"⟩ = .ok [sampleOwned second] := rfl

theorem sample_first (first second : String) :
    universeItems sampleQualifyEnv (sampleSystems first second) .x86_64 ⟨.system, "4.0.1"⟩ = .ok [sampleOwned first] := rfl

theorem sampleOwned_satisfies : Satisfies .x86_64 "tool" (sampleOwned "tool") :=
  ⟨⟨"tool", none, none⟩, by decide +kernel, rfl, by decide +kernel⟩

/-- What a cohort's report of no finding is. -/
def emptyReport (packages : Nat) : QualificationReport := ⟨"cohort", 1, "03", .x86_64, packages, 1, [], false⟩

/-- Where nothing is found: every dependency of the candidate's outputs is satisfied
with each compatible system alone, just if what a package of one system satisfies is
satisfied with each of the others. -/
theorem qualify_each_system_iff (env : QualifyEnv) (s : QualifyState) (current : CohortRow) (architecture : Architecture)
    (loaded : LoadedPackages) (report : QualificationReport)
    (hloaded : loadPackages env s current architecture = .ok loaded)
    (hsaved : ∀ saved, env.saved current architecture = .ok (some saved) →
      qualifyCohortUncached env s current architecture = .ok saved)
    (h : qualifyCohort env s current architecture = .ok report) (hnone : report.findings = []) :
    (∀ digest ∈ current.manifest.compatibleSystems, ∀ system, systemRef s digest = .ok system →
        ∀ output ∈ candidateOutputs architecture loaded, ∀ relation ∈ output.metadata.depends,
          SatisfiedWith env s current architecture loaded system relation) ↔
      ∀ digest ∈ current.manifest.compatibleSystems, ∀ system, systemRef s digest = .ok system →
        ∀ digest' ∈ current.manifest.compatibleSystems, ∀ system', systemRef s digest' = .ok system' →
        ∀ output ∈ candidateOutputs architecture loaded, ∀ relation ∈ output.metadata.depends,
          (∃ p, Satisfies architecture relation p ∧ InUniverse env s architecture system' p) →
            SatisfiedWith env s current architecture loaded system relation := by
  constructor
  · intro hall digest hdigest system hsystem _ _ _ _ output houtput relation hrelation _
    exact hall digest hdigest system hsystem output houtput relation hrelation
  · intro heach digest hdigest system hsystem output houtput relation hrelation
    have huncached : qualifyCohortUncached env s current architecture = .ok report := by
      obtain ⟨saved, hread, h⟩ := Fallible.bind_ok.mp h
      cases saved with
      | none => exact h
      | some saved =>
        cases h
        exact hsaved report hread
    obtain ⟨loaded', hloaded', huncached⟩ := Fallible.bind_ok.mp huncached
    rw [hloaded] at hloaded'
    cases hloaded'
    obtain ⟨indexed, -, huncached⟩ := Fallible.bind_ok.mp huncached
    obtain ⟨inputs, -, huncached⟩ := Fallible.bind_ok.mp huncached
    cases huncached
    have howner : output ∈ (qualificationInput current architecture loaded).candidates := (List.mem_filter.mp houtput).1
    obtain ⟨p, hp, hsatisfies⟩ := satisfies_of_isSatisfied (satisfied_of_nothing hnone howner hrelation)
    rcases mem_loaded hloaded (List.mem_filter.mp hp).1 with horigin | hparent | ⟨digest', hdigest', system', hsystem', hin⟩
    · exact ⟨p, hsatisfies, .inr (.inr (List.mem_filter.mpr ⟨hp, decide_eq_true horigin⟩))⟩
    · exact ⟨p, hsatisfies, .inr (.inl hparent)⟩
    · -- another system's package: the only case in which this one may lack it
      exact heach digest hdigest system hsystem digest' hdigest' system' hsystem' output houtput relation hrelation
        ⟨p, hsatisfies, hin⟩

/-- Both systems have the tool. -/
theorem qualify_each_system_sample :
    SatisfiedWith sampleQualifyEnv (sampleSystems "tool" "tool") sampleCohort .x86_64
      ⟨[sampleOwned "tool", sampleOutput], [sampleOwned "tool"]⟩ ⟨.system, "4.0.2"⟩ "tool" := by
  refine (qualify_each_system_iff sampleQualifyEnv (sampleSystems "tool" "tool") sampleCohort .x86_64
    ⟨[sampleOwned "tool", sampleOutput], [sampleOwned "tool"]⟩ (emptyReport 2) rfl (fun _ hsaved => nomatch hsaved) rfl rfl).mpr
    ?_ "m2" (by decide) ⟨.system, "4.0.2"⟩ rfl sampleOutput (by decide) "tool" (by decide)
  intro digest hdigest system hsystem _ _ _ _ output houtput relation hrelation _
  have houtputs : candidateOutputs .x86_64 ⟨[sampleOwned "tool", sampleOutput], [sampleOwned "tool"]⟩ = [sampleOutput] := by
    decide
  rw [houtputs, List.mem_singleton] at houtput
  subst houtput
  obtain rfl := List.mem_singleton.mp hrelation
  refine ⟨sampleOwned "tool", sampleOwned_satisfies, .inl ⟨[sampleOwned "tool"], ?_, List.mem_cons_self⟩⟩
  rcases List.mem_cons.mp hdigest with rfl | hdigest
  · cases hsystem
    exact sample_first "tool" "tool"
  · obtain rfl := List.mem_singleton.mp hdigest
    cases hsystem
    exact sample_second "tool" "tool"

/-- The first system has the tool and the second does not, and nothing is found. -/
theorem qualify_each_system_fails :
    ¬∀ (env : QualifyEnv) (s : QualifyState) (current : CohortRow) (architecture : Architecture) (loaded : LoadedPackages)
      (report : QualificationReport), loadPackages env s current architecture = .ok loaded →
      (∀ saved, env.saved current architecture = .ok (some saved) →
        qualifyCohortUncached env s current architecture = .ok saved) →
      qualifyCohort env s current architecture = .ok report → report.findings = [] →
      ∀ digest ∈ current.manifest.compatibleSystems, ∀ system, systemRef s digest = .ok system →
        ∀ output ∈ candidateOutputs architecture loaded, ∀ relation ∈ output.metadata.depends,
          SatisfiedWith env s current architecture loaded system relation := by
  intro h
  obtain ⟨p, ⟨dependency, hparse, -, hsatisfies⟩, hp⟩ := h sampleQualifyEnv (sampleSystems "tool" "base") sampleCohort .x86_64
    ⟨[sampleOwned "tool", sampleOwned "base", sampleOutput], [sampleOwned "tool", sampleOwned "base"]⟩ (emptyReport 3) rfl
    (fun _ hsaved => nomatch hsaved) rfl rfl "m2" (by decide) ⟨.system, "4.0.2"⟩ rfl sampleOutput (by decide) "tool" (by decide)
  have htool : parseArchRelation "tool" = some ⟨"tool", none, none⟩ := by decide +kernel
  rw [htool] at hparse
  cases hparse
  rcases hp with ⟨items, hitems, hp⟩ | ⟨ref, href, -⟩ | hp
  · rw [sample_second] at hitems
    cases hitems
    obtain rfl := List.mem_singleton.mp hp
    revert hsatisfies
    decide +kernel
  · cases href
  · have houtputs : candidateOutputs .x86_64
        ⟨[sampleOwned "tool", sampleOwned "base", sampleOutput], [sampleOwned "tool", sampleOwned "base"]⟩ = [sampleOutput] := by
      decide
    rw [houtputs, List.mem_singleton] at hp
    subst hp
    revert hsatisfies
    decide +kernel

end Omapkg.Server.Qualification
