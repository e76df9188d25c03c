import Omapkg.Server.NativeEvidence
/-!
# The rows of evidence

When what `recordNativeQualification` inserts is a row of its table, and when every truthful
report of reproducibility passes its comparison.
-/

namespace Omapkg.Server.NativeEvidence

open Utf Json

/-! ## What was checked -/

theorem isDigest_length {d : String} (h : isDigest d = true) : d.length = 64 := by
  unfold isDigest at h
  rw [Bool.and_eq_true, decide_eq_true_eq] at h
  exact h.1

/-- What the columns of a row rely on. -/
structure Parsed (e : Evidence) : Prop where
  digests : ∀ d ∈ [e.candidateSha256, e.inputSha256, e.artifactSha256, e.environmentSha256, e.profileSha256,
    e.coverage.sha256, e.observedSha256], isDigest d = true
  scope : isScope e.coverage = true
  root : e.coverage.rootSha256.all isDigest = true
  operation : e.operation = .reproducibility ↔ e.reproducibility.isSome = true

section
variable {env : EvidenceEnv} {db : EvidenceDb} {value e : Evidence}

theorem parseCoverage_ok {c c' : Coverage} (h : parseCoverage c = .ok c') :
    isScope c' = true ∧ c'.rootSha256.all isDigest = true ∧ isDigest c'.sha256 = true := by
  obtain ⟨⟨⟩, htexts, h⟩ := Fallible.bind_ok.mp h
  obtain ⟨⟨⟩, hscope, h⟩ := Fallible.bind_ok.mp h
  obtain ⟨⟨⟩, -, h⟩ := Fallible.bind_ok.mp h
  obtain ⟨⟨⟩, -, h⟩ := Fallible.bind_ok.mp h
  obtain ⟨⟨⟩, hdigest, h⟩ := Fallible.bind_ok.mp h
  cases h
  refine ⟨?_, requireAll_ok.mp htexts (c.rootSha256.all isDigest, "coverage universe root") (by simp), require_ok.mp hdigest⟩
  have := reject_ok.mp hscope
  rwa [Bool.not_eq_false] at this

/-- A report is read as one of the same status. -/
theorem parseReport_ok {r r' : Option ReproducibilityReport} (h : parseReport env r = .ok r') :
    r'.map (·.status) = r.map (·.status) := by
  cases r with
  | none =>
    cases h
    rfl
  | some r =>
    obtain ⟨r₁, hr, h⟩ := Fallible.bind_ok.mp h
    obtain ⟨primary, -, hr⟩ := Fallible.bind_ok.mp hr
    obtain ⟨secondary, -, hr⟩ := Fallible.bind_ok.mp hr
    cases hr
    cases h
    rfl

theorem parseEvidence_ok (h : parseEvidence env value = .ok e) : Parsed e ∧ e.observed = value.observed ∧
    e.details = value.details ∧ e.reproducibility.map (·.status) = value.reproducibility.map (·.status) := by
  obtain ⟨⟨⟩, -, h⟩ := Fallible.bind_ok.mp h
  obtain ⟨⟨⟩, hprofile, h⟩ := Fallible.bind_ok.mp h
  obtain ⟨coverage, hcoverage, h⟩ := Fallible.bind_ok.mp h
  obtain ⟨⟨⟩, -, h⟩ := Fallible.bind_ok.mp h
  obtain ⟨⟨⟩, -, h⟩ := Fallible.bind_ok.mp h
  obtain ⟨⟨⟩, -, h⟩ := Fallible.bind_ok.mp h
  obtain ⟨⟨⟩, -, h⟩ := Fallible.bind_ok.mp h
  obtain ⟨⟨⟩, hfields, h⟩ := Fallible.bind_ok.mp h
  obtain ⟨reproducibility, hreport, h⟩ := Fallible.bind_ok.mp h
  obtain ⟨⟨⟩, hoperation, h⟩ := Fallible.bind_ok.mp h
  cases h
  obtain ⟨hscope, hroot, hsha⟩ := parseCoverage_ok hcoverage
  rw [requireAll_ok] at hprofile hfields
  refine ⟨⟨?_, hscope, hroot, ?_⟩, rfl, rfl, parseReport_ok hreport⟩
  · simp only [List.forall_mem_cons, List.not_mem_nil, false_implies, implies_true, and_true] at hprofile hfields ⊢
    obtain ⟨-, -, -, -, hcandidate, hinput, hartifact, henvironment, hobserved⟩ := hfields
    exact ⟨hcandidate, hinput, hartifact, henvironment, hprofile.2, hsha, hobserved⟩
  · have hsome := reject_ok.mp hoperation
    rw [not_not] at hsome
    change value.operation = .reproducibility ↔ reproducibility.isSome = true
    rw [← hsome, decide_eq_true_eq]

theorem currentPlan_ok {planId : String} {plan : Plan} (h : currentPlan env db planId = .ok plan) :
    plan ∈ db.plans ∧ plan.id = planId := by
  unfold currentPlan at h
  split at h
  · cases h
  · rename_i found hfound
    obtain ⟨-, h⟩ := Fallible.guard_ok.mp h
    cases h
    have hid := List.find?_some hfound
    exact ⟨List.mem_of_find?_eq_some hfound, of_decide_eq_true hid⟩

theorem actualReproducibility_ok {plan : Plan} {report : ReproducibilityReport} {status : ReproducibilityStatus}
    (h : actualReproducibility env db plan report = .ok status) : status = report.status := by
  obtain ⟨⟨⟩, -, h⟩ := Fallible.bind_ok.mp h
  obtain ⟨⟨⟩, -, h⟩ := Fallible.bind_ok.mp h
  split at h
  · next hstatus =>
    cases h
    exact hstatus.symm
  · obtain ⟨⟨⟩, -, h⟩ := Fallible.bind_ok.mp h
    obtain ⟨⟨⟩, -, h⟩ := Fallible.bind_ok.mp h
    obtain ⟨⟨⟩, -, h⟩ := Fallible.bind_ok.mp h
    obtain ⟨⟨⟩, -, h⟩ := Fallible.bind_ok.mp h
    obtain ⟨⟨⟩, -, h⟩ := Fallible.bind_ok.mp h
    cases h
    rfl

theorem reproducibilityOf_ok {worker : WorkerRow} {plan : Plan} {status : Option ReproducibilityStatus} (hparsed : Parsed e)
    (h : reproducibilityOf env db worker plan e = .ok status) : status = e.reproducibility.map (·.status) := by
  unfold reproducibilityOf at h
  split_ifs at h with hoperation
  · cases hreport : e.reproducibility with
    | none =>
      rw [hreport] at h
      cases h
    | some report =>
      rw [hreport] at h
      obtain ⟨⟨⟩, -, h⟩ := Fallible.bind_ok.mp h
      obtain ⟨status', hstatus, h⟩ := Fallible.bind_ok.mp h
      cases h
      rw [actualReproducibility_ok hstatus]
      rfl
  · cases h
    rw [hparsed.operation, Option.isSome_iff_ne_none, not_not] at hoperation
    rw [hoperation]
    rfl

theorem checkEvidence_ok {worker : WorkerRow} {plan : Plan} {status : Option ReproducibilityStatus} (hparsed : Parsed e)
    (h : checkEvidence env db worker e = .ok (plan, status)) : (∃ plan ∈ db.plans, plan.id = e.planId) ∧
      e.workerId = worker.id ∧ (∃ r ∈ db.cohortRevisions, r.cohortId = e.cohortId ∧ r.revision = e.revision) ∧
      status = e.reproducibility.map (·.status) := by
  obtain ⟨plan', hplan, h⟩ := Fallible.bind_ok.mp h
  obtain ⟨⟨⟩, -, h⟩ := Fallible.bind_ok.mp h
  obtain ⟨⟨⟩, hmatches, h⟩ := Fallible.bind_ok.mp h
  obtain ⟨⟨⟩, hworker, h⟩ := Fallible.bind_ok.mp h
  obtain ⟨⟨⟩, hcandidate, h⟩ := Fallible.bind_ok.mp h
  obtain ⟨⟨⟩, -, h⟩ := Fallible.bind_ok.mp h
  obtain ⟨⟨⟩, -, h⟩ := Fallible.bind_ok.mp h
  obtain ⟨⟨⟩, -, h⟩ := Fallible.bind_ok.mp h
  obtain ⟨⟨⟩, -, h⟩ := Fallible.bind_ok.mp h
  obtain ⟨⟨⟩, -, h⟩ := Fallible.bind_ok.mp h
  obtain ⟨⟨⟩, -, h⟩ := Fallible.bind_ok.mp h
  obtain ⟨⟨⟩, -, h⟩ := Fallible.bind_ok.mp h
  obtain ⟨status', hstatus, h⟩ := Fallible.bind_ok.mp h
  obtain ⟨⟨⟩, -, h⟩ := Fallible.bind_ok.mp h
  cases h
  have hsame := reject_ok.mp hmatches
  rw [Bool.not_eq_false] at hsame
  simp only [matchesPlan, Bool.and_eq_true, decide_eq_true_eq] at hsame
  obtain ⟨⟨⟨⟨⟨⟨⟨⟨⟨⟨⟨-, hcohort⟩, hrevision⟩, -⟩, -⟩, -⟩, -⟩, -⟩, -⟩, -⟩, -⟩, -⟩ := hsame
  refine ⟨⟨plan, currentPlan_ok hplan⟩, ?_, ?_, reproducibilityOf_ok hparsed hstatus⟩
  · have := reject_ok.mp hworker
    exact not_not.mp (not_or.mp this).1
  · obtain ⟨⟨⟩, hcurrent, -⟩ := Fallible.bind_ok.mp hcandidate
    have hfound := reject_ok.mp hcurrent
    rw [not_or, not_not] at hfound
    obtain ⟨⟨r, hr, hrow, hrowRevision, -⟩, -⟩ := hfound
    exact ⟨r, hr, hrow.trans hcohort.symm, hrowRevision.trans hrevision.symm⟩

/-! ## Nesting -/

/-- What `json_valid` says of a text that is JSON: SQLite reads no more than a thousand levels. -/
def ReadsJson (jsonValid : List Char → Bool) : Prop :=
  ∀ v : Json JsString, jsonValid (v.print jsQuote) = true ↔ v.depth ≤ 1000

theorem depthMembers_perm {ms ms' : List (JsString × Json JsString)} (h : ms.Perm ms') : depthMembers ms = depthMembers ms' := by
  refine Nat.le_antisymm ((depthMembers_le_iff _ _).mpr fun m hm => ?_) ((depthMembers_le_iff _ _).mpr fun m hm => ?_)
  · exact (depthMembers_le_iff _ _).mp le_rfl m (h.mem_iff.mp hm)
  · exact (depthMembers_le_iff _ _).mp le_rfl m (h.mem_iff.mpr hm)

mutual
/-- The canonical value nests as deeply as the value. -/
theorem canonicalValue_depth : ∀ v : Json JsString, (canonicalValue v).depth = v.depth
  | .null => rfl
  | .bool _ => rfl
  | .num _ => rfl
  | .str _ => rfl
  | .arr xs => by rw [canonicalValue, depth, depth, canonicalElems_depth xs]
  | .obj ms => by rw [canonicalValue, depth, depth, depthMembers_perm (canonicalOrder_perm _), canonicalMembers_depth ms]

theorem canonicalElems_depth : ∀ xs : List (Json JsString), depthElems (canonicalElems xs) = depthElems xs
  | [] => rfl
  | x :: xs => by rw [canonicalElems, depthElems, depthElems, canonicalValue_depth x, canonicalElems_depth xs]

theorem canonicalMembers_depth : ∀ ms : List (JsString × Json JsString), depthMembers (canonicalMembers ms) = depthMembers ms
  | [] => rfl
  | (_, v) :: ms => by rw [canonicalMembers, depthMembers, depthMembers, canonicalValue_depth v, canonicalMembers_depth ms]
end

theorem jsonValid_canonical {jsonValid : List Char → Bool} (hjson : ReadsJson jsonValid) (v : Json JsString) :
    jsonValid (canonicalJson v) = true ↔ v.depth ≤ 1000 := by
  rw [canonicalJson, hjson, canonicalValue_depth]

theorem depth_jsObject_le (ms : List (String × Json JsString)) (d : Nat) :
    (jsObject ms).depth ≤ d + 1 ↔ ∀ m ∈ ms, m.2.depth ≤ d := by
  rw [jsObject, depth, Nat.add_le_add_iff_right, depthMembers_le_iff]
  simp only [List.forall_mem_map]

theorem depth_arr_le (xs : List (Json JsString)) (d : Nat) : (Json.arr xs).depth ≤ d + 1 ↔ ∀ x ∈ xs, x.depth ≤ d := by
  rw [depth, Nat.add_le_add_iff_right, depthElems_le_iff]

@[simp] theorem depth_jsText (s : String) : (jsText s).depth = 0 := rfl

@[simp] theorem depth_jsNat (n : Nat) : (jsNat n).depth = 0 := rfl

@[simp] theorem depth_num (n : Numeral) : (Json.num n : Json JsString).depth = 0 := rfl

@[simp] theorem depth_bool (b : Bool) : (Json.bool b : Json JsString).depth = 0 := rfl

theorem depth_obj_le (ms : List (JsString × Json JsString)) (d : Nat) :
    (Json.obj ms).depth ≤ d + 1 ↔ depthMembers ms ≤ d := by
  rw [depth, Nat.add_le_add_iff_right]

@[simp] theorem depth_jsTextOrNull (s : Option String) : (jsTextOrNull s).depth = 0 := by cases s <;> rfl

theorem coverage_depth (c : Coverage) : c.json.depth ≤ 2 := by
  rw [Coverage.json, depth_jsObject_le]
  simp [depth_arr_le]

theorem output_depth (o : ReproducibilityOutput) : o.json.depth = 1 := rfl

theorem attempt_depth (a : ReproducibilityAttempt) : a.json.depth ≤ 3 := by
  rw [ReproducibilityAttempt.json, depth_jsObject_le]
  simp [depth_arr_le, output_depth]

theorem report_depth (r : ReproducibilityReport) : r.json.depth ≤ 4 := by
  rw [ReproducibilityReport.json, depth_jsObject_le]
  simp [attempt_depth]

theorem command_depth (result : CommandResult) : result.json.depth = 1 := rfl

/-- A report nests as deeply as its observations and the details of its environment. -/
theorem evidence_depth (e : Evidence) :
    e.json.depth ≤ 1000 ↔ depthMembers e.observed ≤ 998 ∧ depthMembers e.details ≤ 997 := by
  have hdigest (d : String) : (digestJson d).depth ≤ 999 := by
    rw [digestJson, depth_jsObject_le]
    simp
  have hmachine : (machineJson e).depth ≤ 998 := by
    rw [machineJson, depth_jsObject_le]
    simp
  have hprofile : (jsObject [("id", jsText e.profileId), ("sha256", jsText e.profileSha256)]).depth ≤ 999 := by
    rw [depth_jsObject_le]
    simp
  have hresult : (jsObject [("startedAt", jsText e.startedAt), ("finishedAt", jsText e.finishedAt),
      ("exitCode", .num (.ofInt e.exitCode)), ("commands", .arr (e.commands.map (·.json)))]).depth ≤ 999 := by
    rw [depth_jsObject_le]
    simp [depth_arr_le, command_depth]
  have henvironment : (jsObject [("sha256", jsText e.environmentSha256), ("machine", machineJson e),
      ("details", .obj e.details)]).depth ≤ 999 ↔ depthMembers e.details ≤ 997 := by
    rw [depth_jsObject_le]
    simp [hmachine, depth_obj_le]
  have hreports : ∀ m ∈ e.reproducibility.toList.map fun r => ("reproducibility", r.json), m.2.depth ≤ 999 := by
    rintro m hm
    obtain ⟨r, -, rfl⟩ := List.mem_map.mp hm
    exact (report_depth r).trans (by omega)
  have hcoverage := (coverage_depth e.coverage).trans (show 2 ≤ 999 by omega)
  rw [Evidence.json, depth_jsObject_le, payloadMembers, List.forall_mem_cons, List.forall_mem_append]
  simp only [List.forall_mem_cons, List.not_mem_nil, false_implies, implies_true, and_true, hdigest, hprofile, hresult,
    henvironment, hcoverage, true_and, depth_jsText, depth_jsNat, depth_obj_le, Nat.zero_le]
  constructor
  · rintro ⟨⟨hdetails, hobserved⟩, -⟩
    exact ⟨hobserved, hdetails⟩
  · rintro ⟨hobserved, hdetails⟩
    exact ⟨⟨hdetails, hobserved⟩, hreports⟩

/-! ## Rows and comparisons -/

theorem isScope_spec {c : Coverage} (h : isScope c = true) :
    c.releaseId ≠ none ∧ (c.kind = .member ↔ c.pkgbase ≠ none) ∧ (c.kind = .system ↔ c.rootSha256 ≠ none) := by
  unfold isScope at h
  rw [Bool.and_eq_true, Option.isSome_iff_ne_none] at h
  refine ⟨h.1, ?_⟩
  cases hkind : c.kind with
  | member =>
    rw [hkind] at h
    simp only [Bool.and_eq_true, Option.isSome_iff_ne_none, Option.isNone_iff_eq_none] at h
    simp [h.2.1, h.2.2]
  | system =>
    rw [hkind] at h
    simp only [Bool.and_eq_true, Option.isSome_iff_ne_none, Option.isNone_iff_eq_none] at h
    simp [h.2.1, h.2.2]

/-- The table knows the report's status, and SQLite reads the report. -/
def Recordable (value : Evidence) : Prop :=
  value.reproducibility.map (·.status) ≠ some .independentlyReproduced ∧ depthMembers value.observed ≤ 998 ∧
    depthMembers value.details ≤ 997

variable {jsonValid : List Char → Bool}

theorem inserted_iff (hsha : ∀ text, (env.sha256 text).length = 64) (hjson : ReadsJson jsonValid)
    {auth : AuthenticatedWorker db} {row : EvidenceRow} (h : recordNativeQualification env db auth value = .ok (.insert row)) :
    row.Satisfies jsonValid db ↔ Recordable value := by
  obtain ⟨e, hparse, h⟩ := Fallible.bind_ok.mp h
  obtain ⟨⟨plan, status⟩, hcheck, h⟩ := Fallible.bind_ok.mp h
  obtain ⟨hparsed, hobserved, hdetails, hreport⟩ := parseEvidence_ok hparse
  obtain ⟨hplan, hworker, hcohort, rfl⟩ := checkEvidence_ok hparsed hcheck
  unfold Recordable
  rw [← hreport, ← hobserved, ← hdetails, ← evidence_depth, ← jsonValid_canonical hjson]
  simp only at h
  split at h
  · cases h
  · rename_i hnew
    cases h
    obtain ⟨hrelease, hmember, hsystem⟩ := isScope_spec hparsed.scope
    constructor
    · intro hrow
      refine ⟨fun hindependent => ?_, hrow.reportJson⟩
      have := hrow.reproducibilityStatus _ hindependent
      simp at this
    · rintro ⟨hindependent, hreads⟩
      refine ⟨hplan, ⟨_, auth.registered, hworker.symm⟩, hcohort, ?_, ?_, hreads, ?_, ?_, hmember, hsystem, hrelease, ?_, ?_⟩
      · have hdigests := hparsed.digests
        simp only [List.forall_mem_cons, List.not_mem_nil, false_implies, implies_true, and_true] at hdigests
        obtain ⟨hcandidate, hinput, hartifact, henvironment, hprofile, hcoverage, hobservation⟩ := hdigests
        simp only [evidenceRow, List.forall_mem_cons, List.not_mem_nil, false_implies, implies_true, and_true]
        exact ⟨isDigest_length hcandidate, isDigest_length hinput, isDigest_length hartifact, isDigest_length henvironment,
          isDigest_length hprofile, isDigest_length hcoverage, isDigest_length hobservation, hsha _⟩
      · exact (jsonValid_canonical hjson _).mpr ((coverage_depth _).trans (by omega))
      · intro status hstatus
        have hsome : e.reproducibility.map (·.status) = some status := hstatus
        cases status with
        | independentlyReproduced => exact absurd hsome hindependent
        | verifiedReproducible => simp
        | mismatch => simp
        | notChecked => simp
      · change e.operation = .reproducibility ↔ e.reproducibility.map (·.status) ≠ none
        rw [hparsed.operation, Option.isSome_iff_ne_none, ne_eq, ne_eq, Option.map_eq_none_iff]
      · intro d hd
        have hroot := hparsed.root
        have hsome : e.coverage.rootSha256 = some d := hd
        rw [hsome] at hroot
        exact isDigest_length hroot
      · rintro other hother ⟨hsamePlan, -, hsameReport⟩
        have hother := List.find?_eq_none.mp hnew other hother
        rw [Bool.and_eq_true, decide_eq_true_eq, decide_eq_true_eq] at hother
        exact hother ⟨hsamePlan, hsameReport⟩

end

/-- What is inserted is a row of the table exactly when it is no report of an independent reproduction, which the table does
not know, and nests no deeper than SQLite reads. The truthful reports of two attempts pass the comparison exactly when the
names of what can be reported of them are in one order by `localeCompare` and by their bytes. -/
theorem recordNativeQualification_iff (env : EvidenceEnv) (db : EvidenceDb) (jsonValid : List Char → Bool)
    (hsha : ∀ text, (env.sha256 text).length = 64) (hjson : ReadsJson jsonValid) (hcollate : Collates env.collate) :
    (∀ (auth : AuthenticatedWorker db) (value : Evidence) (row : EvidenceRow),
      recordNativeQualification env db auth value = .ok (.insert row) → (row.Satisfies jsonValid db ↔ Recordable value)) ∧
    ∀ (primaryBuild secondaryBuild : String) (primaryAttempt secondaryAttempt : Nat),
      (∀ registered ∈ [db.outputs primaryBuild primaryAttempt, db.outputs secondaryBuild secondaryAttempt],
        TruthfulPass env.collate registered) ↔
      ∀ registered ∈ [db.outputs primaryBuild primaryAttempt, db.outputs secondaryBuild secondaryAttempt],
        Reportable registered → SameOrder env.collate registered := by
  refine ⟨fun auth value row h => inserted_iff hsha hjson h, fun primaryBuild secondaryBuild primaryAttempt secondaryAttempt => ?_⟩
  simp only [List.forall_mem_cons, List.not_mem_nil, false_implies, implies_true, and_true]
  rw [truthfulPass_iff hcollate (db.distinct _ _), truthfulPass_iff hcollate (db.distinct _ _)]

/-! ## Two packages that were reproduced -/

/-- Letters in one order whatever their case. -/
def caseless (a b : String) : Bool := a.toList.map (fun c => c.toLower.toNat) ≤ b.toList.map fun c => c.toLower.toNat

theorem caseless_collates : Collates caseless where
  total a b := by simpa only [caseless, decide_eq_true_eq] using le_total _ _
  trans a b c hab hbc := by
    simp only [caseless, decide_eq_true_eq] at hab hbc ⊢
    exact le_trans hab hbc

def sampleJsonValid (text : List Char) : Bool := (Json.read lexUnits text).any fun v => v.depth ≤ 1000

theorem sampleJsonValid_reads : ReadsJson sampleJsonValid := by
  intro v
  rw [sampleJsonValid, read_print reads_jsQuote readsBack_jsQuote, Option.any_some, decide_eq_true_eq]

def zeros : String := "0000000000000000000000000000000000000000000000000000000000000000"

/-- Everything but the tables and the outputs is in order. -/
def sampleEnv : EvidenceEnv where
  sha256 _ := zeros
  collate := caseless
  instant _ := some 0
  verify _ _ _ := true
  planIntact _ := true
  assertPlanReview _ := .ok ()
  assertScope _ := .ok ()
  assertSelectedInput _ := .ok ()
  assertOperationObservation _ := .ok ()
  assertAttempts _ _ := .ok ()
  assertObjects _ := .ok ()
  assertSigned _ := .ok ()
  artifactRegistered _ := true

theorem zeros_length (text : List Char) : (sampleEnv.sha256 text).length = 64 := by
  change zeros.length = 64
  decide

def sampleCoverage : Coverage := ⟨.member, some "app", none, some "release", ["app"], zeros⟩

def samplePlan : Plan where
  id := "plan"
  planSha256 := zeros
  cohortId := "cohort"
  revision := 1
  operation := .reproducibility
  architecture := .x86_64
  candidateSha256 := zeros
  inputSha256 := zeros
  artifactSha256 := zeros
  environmentSha256 := zeros
  profileId := "profile"
  profileSha256 := zeros
  coverage := sampleCoverage
  commands := []
  commandsText := []
  expectedObservationSha256 := zeros
  expected := ⟨some "first", some "second", some 1, some 1⟩

/-- The outputs of builds that were attempted once. -/
def sampleOutputs : String → Nat → List ReproducibilityOutput
  | "mixed", _ => [⟨"B-1.pkg.tar.zst", zeros⟩, ⟨"a-1.pkg.tar.zst", zeros⟩]
  | _, _ => [⟨"a-1.pkg.tar.zst", zeros⟩]

def sampleDb : EvidenceDb where
  plans := [samplePlan]
  workers := [⟨"worker", "key", .x86_64, true⟩]
  cohortRevisions := [⟨"cohort", 1, zeros⟩]
  currentRevision _ := some 1
  outputs := sampleOutputs
  distinct buildId attempt := by
    unfold sampleOutputs
    split <;> simp
  evidence := []

def sampleAuth : AuthenticatedWorker sampleDb := ⟨⟨"worker", "key", .x86_64, true⟩, by simp [sampleDb]⟩

/-- A report of two attempts with one output each, the same. -/
def sampleEvidence (status : ReproducibilityStatus) : Evidence where
  planId := "plan"
  testPlanSha256 := zeros
  cohortId := "cohort"
  revision := 1
  operation := .reproducibility
  architecture := .x86_64
  candidateSha256 := zeros
  inputSha256 := zeros
  artifactSha256 := zeros
  environmentSha256 := zeros
  machineArchitecture := "x86_64"
  goarch := "amd64"
  goos := "linux"
  runtime := "go1.24"
  details := []
  profileId := "profile"
  profileSha256 := zeros
  coverage := sampleCoverage
  commandSha256 := zeros
  startedAt := "2026-01-01T00:00:00Z"
  finishedAt := "2026-01-01T00:00:00Z"
  exitCode := 0
  commands := []
  observed := []
  observedSha256 := zeros
  reproducibility := some ⟨status, ⟨"first", 1, "other", zeros, [⟨"a-1.pkg.tar.zst", zeros⟩]⟩,
    ⟨"second", 1, "worker", zeros, [⟨"a-1.pkg.tar.zst", zeros⟩]⟩⟩
  workerId := "worker"
  workerPublicKey := "key"
  signature := "signature"

def Recording.inserted : Except String Recording → Option EvidenceRow
  | .ok (.insert row) => some row
  | _ => none

/-- An independent reproduction is accepted and has no row; and names of both cases are sorted in two orders. -/
theorem independentlyReproduced_refused :
    (∃ row, recordNativeQualification sampleEnv sampleDb sampleAuth (sampleEvidence .independentlyReproduced) =
        .ok (.insert row) ∧ ¬row.Satisfies sampleJsonValid sampleDb) ∧
      ¬TruthfulPass sampleEnv.collate (sampleDb.outputs "mixed" 1) := by
  constructor
  · have hinserted : (Recording.inserted (recordNativeQualification sampleEnv sampleDb sampleAuth
        (sampleEvidence .independentlyReproduced))).isSome = true := by
      decide +kernel
    cases hrun : recordNativeQualification sampleEnv sampleDb sampleAuth (sampleEvidence .independentlyReproduced) with
    | error message =>
      rw [hrun] at hinserted
      cases hinserted
    | ok recording =>
      cases recording with
      | duplicate row =>
        rw [hrun] at hinserted
        cases hinserted
      | insert row =>
        refine ⟨row, rfl, fun hrow => ?_⟩
        exact ((inserted_iff zeros_length sampleJsonValid_reads hrun).mp hrow).1 rfl
  · intro hpass
    have h := (truthfulPass_iff caseless_collates (sampleDb.distinct "mixed" 1)).mp hpass
    have hreportable : Reportable (sampleDb.outputs "mixed" 1) := by
      refine ⟨by decide, ?_⟩
      simp only [sampleDb, sampleOutputs, List.forall_mem_cons, List.not_mem_nil, false_implies, implies_true, and_true]
      decide +kernel
    have hpair := h hreportable ⟨"B-1.pkg.tar.zst", zeros⟩ (by simp [sampleDb, sampleOutputs]) ⟨"a-1.pkg.tar.zst", zeros⟩
      (by simp [sampleDb, sampleOutputs]) (by decide)
    revert hpair
    decide +kernel

theorem recordNativeQualification_sample :
    (∀ (auth : AuthenticatedWorker sampleDb) (value : Evidence) (row : EvidenceRow),
      recordNativeQualification sampleEnv sampleDb auth value = .ok (.insert row) →
        (row.Satisfies sampleJsonValid sampleDb ↔ Recordable value)) ∧
    ∀ (primaryBuild secondaryBuild : String) (primaryAttempt secondaryAttempt : Nat),
      (∀ registered ∈ [sampleDb.outputs primaryBuild primaryAttempt, sampleDb.outputs secondaryBuild secondaryAttempt],
        TruthfulPass sampleEnv.collate registered) ↔
      ∀ registered ∈ [sampleDb.outputs primaryBuild primaryAttempt, sampleDb.outputs secondaryBuild secondaryAttempt],
        Reportable registered → SameOrder sampleEnv.collate registered :=
  recordNativeQualification_iff sampleEnv sampleDb sampleJsonValid zeros_length sampleJsonValid_reads caseless_collates

end Omapkg.Server.NativeEvidence
