import Mathlib.Data.List.Sort
import Omapkg.Server.CanonicalText
import Omapkg.Server.Manifest
/-!
# Artifacts of qualification plans

Which artifacts `src/src/lib/server/native-qualification.ts` takes for those of a candidate:
`candidateArtifactBinding` when a plan is admitted, `registeredArtifact` when its evidence
is. The first looks at one member of the cohort, the second at all of them.
-/

namespace Omapkg.Server.Qualification

open Utf Json

/-! ## Tables -/

structure BuildArtifact where
  buildId : String
  attempt : Nat
  filename : String
  sha256 : String
  deriving DecidableEq

inductive BuildStatus where
  | queued | leased | succeeded | failed | cancelled
  deriving DecidableEq

structure Build where
  id : String
  attempt : Nat
  revisionId : String
  architecture : Architecture
  workerId : Option String
  status : BuildStatus

inductive WorkerStatus where
  | active | revoked
  deriving DecidableEq

structure Worker where
  id : String
  status : WorkerStatus

structure CohortMember where
  cohortId : String
  revision : Nat
  pkgbase : String
  recipeRevisionId : Option String
  deriving DecidableEq

structure QualificationState where
  artifacts : List BuildArtifact
  builds : List Build
  workers : List Worker
  /-- The ids of the table `revisions`. -/
  revisions : List String
  members : List CohortMember

/-- What is read of a plan of member coverage. -/
structure MemberPlan where
  cohortId : String
  revision : Nat
  architecture : Architecture
  artifactSha256 : String
  pkgbase : String

/-! ## Queries -/

/-- `build_artifacts a JOIN builds b … JOIN workers w … JOIN revisions r … JOIN cohort_members m …` of an
architecture and a cohort's revision, a row for each way to join. -/
def registeredRows (s : QualificationState) (architecture : Architecture) (cohortId : String) (revision : Nat) :
    List (BuildArtifact × CohortMember) :=
  s.artifacts.flatMap fun a =>
    (s.builds.filter fun b => b.id = a.buildId ∧ b.attempt = a.attempt).flatMap fun b =>
      (s.workers.filter fun w => b.workerId = some w.id ∧ w.status = .active).flatMap fun _ =>
        (s.revisions.filter fun r => r = b.revisionId).flatMap fun r =>
          (s.members.filter fun m => m.recipeRevisionId = some r ∧ b.architecture = architecture ∧
            m.cohortId = cohortId ∧ m.revision = revision ∧ b.status = .succeeded).map fun m => (a, m)

/-- `ORDER BY a.filename`. -/
def byFilename (rows : List (BuildArtifact × CohortMember)) : List BuildArtifact :=
  (rows.map (·.1)).insertionSort fun a b => a.filename ≤ b.filename

def candidateArtifactRows (s : QualificationState) (plan : MemberPlan) : List BuildArtifact :=
  byFilename ((registeredRows s plan.architecture plan.cohortId plan.revision).filter fun row => row.2.pkgbase = plan.pkgbase)

def BuildArtifact.json (a : BuildArtifact) : Json String := .obj [("filename", .str a.filename), ("sha256", .str a.sha256)]

section
variable (sha256 : List Char → String) (collate : String → String → Bool)

/-- What `outputSetDigest` hashes. -/
def outputSetText (outputs : List BuildArtifact) : List Char :=
  let sorted := outputs.insertionSort fun a b => collate a.filename b.filename
  canonicalJson ((Json.arr (sorted.map BuildArtifact.json)).map units)

def outputSetDigest (outputs : List BuildArtifact) : String := sha256 (outputSetText collate outputs)

def candidateArtifactBinding (s : QualificationState) (plan : MemberPlan) : Bool :=
  let artifacts := candidateArtifactRows s plan
  artifacts.any (·.sha256 = plan.artifactSha256) ||
    (artifacts ≠ [] && outputSetDigest sha256 collate artifacts = plan.artifactSha256)

def registeredArtifact (s : QualificationState) (digestValue : String) (architectureValue : Architecture)
    (cohortId : String) (revision : Nat) : Bool :=
  (registeredRows s architectureValue cohortId revision).any (·.1.sha256 = digestValue) ||
    (let artifacts := byFilename (registeredRows s architectureValue cohortId revision)
     artifacts ≠ [] && outputSetDigest sha256 collate artifacts = digestValue)

end

/-! ## Sets of outputs -/

section
variable {sha256 : List Char → String} {collate : String → String → Bool} {s : QualificationState} {plan : MemberPlan}

theorem length_canonicalElems (xs : List (Json JsString)) : (canonicalElems xs).length = xs.length := by
  induction xs with
  | nil => rfl
  | cons x xs ih => rw [canonicalElems, List.length_cons, List.length_cons, ih]

/-- The text of a set of outputs tells how many there are. -/
theorem length_of_outputSetText {a b : List BuildArtifact} (h : outputSetText collate a = outputSetText collate b) :
    a.length = b.length := by
  have hvalues := print_inj reads_jsQuote readsBack_jsQuote h
  simp only [Json.map, canonicalValue, Json.arr.injEq, mapElems_eq] at hvalues
  have hlength := congrArg List.length hvalues
  simpa [length_canonicalElems] using hlength

theorem mem_byFilename {rows : List (BuildArtifact × CohortMember)} {a : BuildArtifact} :
    a ∈ byFilename rows ↔ ∃ row ∈ rows, row.1 = a := by
  unfold byFilename
  rw [List.mem_insertionSort, List.mem_map]

@[simp] theorem length_byFilename (rows : List (BuildArtifact × CohortMember)) : (byFilename rows).length = rows.length := by
  unfold byFilename
  rw [List.length_insertionSort, List.length_map]

theorem byFilename_eq_nil {rows : List (BuildArtifact × CohortMember)} : byFilename rows = [] ↔ rows = [] := by
  rw [← List.length_eq_zero_iff, length_byFilename, List.length_eq_zero_iff]

theorem registeredArtifact_iff {digestValue : String} {architectureValue : Architecture} {cohortId : String} {revision : Nat} :
    registeredArtifact sha256 collate s digestValue architectureValue cohortId revision = true ↔
      (∃ row ∈ registeredRows s architectureValue cohortId revision, row.1.sha256 = digestValue) ∨
        registeredRows s architectureValue cohortId revision ≠ [] ∧
          outputSetDigest sha256 collate (byFilename (registeredRows s architectureValue cohortId revision)) = digestValue := by
  simp only [registeredArtifact, Bool.or_eq_true, List.any_eq_true, Bool.and_eq_true, decide_eq_true_eq, ne_eq,
    byFilename_eq_nil]

theorem candidateArtifactBinding_iff :
    candidateArtifactBinding sha256 collate s plan = true ↔
      (∃ a ∈ candidateArtifactRows s plan, a.sha256 = plan.artifactSha256) ∨
        candidateArtifactRows s plan ≠ [] ∧
          outputSetDigest sha256 collate (candidateArtifactRows s plan) = plan.artifactSha256 := by
  simp only [candidateArtifactBinding, Bool.or_eq_true, List.any_eq_true, Bool.and_eq_true, decide_eq_true_eq, ne_eq]

/-- A member's outputs are outputs of its cohort. -/
theorem exists_registered {a : BuildArtifact} (h : a ∈ candidateArtifactRows s plan) :
    ∃ row ∈ registeredRows s plan.architecture plan.cohortId plan.revision, row.1 = a := by
  obtain ⟨row, hrow, ha⟩ := mem_byFilename.mp h
  exact ⟨row, (List.mem_filter.mp hrow).1, ha⟩

/-- Of a plan that was admitted the evidence is, exactly when the digest is that of one output of the cohort, or the
member is the only one with outputs. The two texts that are compared by their digests are to collide only if equal. -/
theorem registeredArtifact_bound_iff (hbound : candidateArtifactBinding sha256 collate s plan = true)
    (hfree : sha256 (outputSetText collate (candidateArtifactRows s plan)) =
        sha256 (outputSetText collate (byFilename (registeredRows s plan.architecture plan.cohortId plan.revision))) →
      outputSetText collate (candidateArtifactRows s plan) =
        outputSetText collate (byFilename (registeredRows s plan.architecture plan.cohortId plan.revision))) :
    registeredArtifact sha256 collate s plan.artifactSha256 plan.architecture plan.cohortId plan.revision = true ↔
      (∃ row ∈ registeredRows s plan.architecture plan.cohortId plan.revision, row.1.sha256 = plan.artifactSha256) ∨
        ∀ row ∈ registeredRows s plan.architecture plan.cohortId plan.revision, row.2.pkgbase = plan.pkgbase := by
  rw [registeredArtifact_iff]
  refine or_congr_right' fun hnone => ?_
  obtain ⟨hne, hdigest⟩ := (candidateArtifactBinding_iff.mp hbound).resolve_left (by
    rintro ⟨a, ha, hsha⟩
    obtain ⟨row, hrow, rfl⟩ := exists_registered ha
    exact hnone ⟨row, hrow, hsha⟩)
  constructor
  · rintro ⟨-, hall⟩
    have hlength := length_of_outputSetText (hfree (hdigest.trans hall.symm))
    unfold candidateArtifactRows at hlength
    rw [length_byFilename, length_byFilename, List.length_filter_eq_length_iff] at hlength
    exact fun row hrow => of_decide_eq_true (hlength row hrow)
  · intro honly
    have hrows : candidateArtifactRows s plan =
        byFilename (registeredRows s plan.architecture plan.cohortId plan.revision) := by
      unfold candidateArtifactRows
      rw [List.filter_eq_self.mpr fun row hrow => decide_eq_true (honly row hrow)]
    rw [hrows, ne_eq, byFilename_eq_nil] at hne
    exact ⟨hne, hrows ▸ hdigest⟩

end

/-! ## A cohort of two members -/

def plainHash (text : List Char) : String := String.ofList text

def collateText (a b : String) : Bool := a ≤ b

def twoMembers : QualificationState where
  artifacts := [⟨"build-a", 1, "app-1-1-x86_64.pkg.tar.zst", "0a"⟩, ⟨"build-b", 1, "lib-1-1-x86_64.pkg.tar.zst", "0b"⟩]
  builds := [⟨"build-a", 1, "revision-a", .x86_64, some "worker", .succeeded⟩,
    ⟨"build-b", 1, "revision-b", .x86_64, some "worker", .succeeded⟩]
  workers := [⟨"worker", .active⟩]
  revisions := ["revision-a", "revision-b"]
  members := [⟨"cohort", 1, "app", some "revision-a"⟩, ⟨"cohort", 1, "lib", some "revision-b"⟩]

/-- The plan binds the complete output set of `app`. -/
def appSetPlan : MemberPlan :=
  ⟨"cohort", 1, .x86_64, outputSetDigest plainHash collateText [⟨"build-a", 1, "app-1-1-x86_64.pkg.tar.zst", "0a"⟩], "app"⟩

/-- The plan binds the one output of `app`. -/
def appPlan : MemberPlan := ⟨"cohort", 1, .x86_64, "0a", "app"⟩

theorem appSetPlan_unregistered : candidateArtifactBinding plainHash collateText twoMembers appSetPlan = true ∧
    registeredArtifact plainHash collateText twoMembers appSetPlan.artifactSha256 appSetPlan.architecture appSetPlan.cohortId
      appSetPlan.revision = false := by
  constructor
  · decide +kernel
  · decide +kernel

theorem appPlan_registered :
    registeredArtifact plainHash collateText twoMembers appPlan.artifactSha256 appPlan.architecture appPlan.cohortId
      appPlan.revision = true ↔
      (∃ row ∈ registeredRows twoMembers appPlan.architecture appPlan.cohortId appPlan.revision,
        row.1.sha256 = appPlan.artifactSha256) ∨
        ∀ row ∈ registeredRows twoMembers appPlan.architecture appPlan.cohortId appPlan.revision,
          row.2.pkgbase = appPlan.pkgbase :=
  registeredArtifact_bound_iff (by decide +kernel) String.ofList_inj.mp

end Omapkg.Server.Qualification
