import Omapkg.Server.ScopeChunks
/-!
# Drafts of rebuild cohorts

`src/src/lib/server/rebuild-cohort.ts`: the members of a planner's report are
matched with the catalog and with the scope of a cohort, and a complete preview is
sent as a scope upload in chunks of a hundred members. Blockers that leave a
preview complete, and the texts of the others, are left out.
-/

namespace Omapkg.Server.Scope

open Utf Json Fallible Arch
open Cohort (isIdentifier)
open Dependency (Actor humanMaintainer)
open Rebuild (UnitsLE)

/-! ## Reports -/

structure PlanMember where
  pkgbase : String
  changed : Bool
  removed : Bool
  affectedBy : List String
  named : isPackageName pkgbase.toList = true
  causesNamed : ∀ cause ∈ affectedBy, isPackageName cause.toList = true

/-- A `RawPlan`; there are no `members` where the planner made no plan. -/
structure RawPlan where
  architecture : Architecture
  missingSeeds : List String
  members : Option (List PlanMember)

structure RebuildScopeReport where
  requiredArchitectures : List Architecture
  plans : List RawPlan

/-- What the plans say of a package base. -/
structure Detail where
  changed : Bool
  removed : Bool
  affectedBy : List String
  targets : List Architecture

def addMember (architecture : Architecture) (rows : List (String × Detail)) (m : PlanMember) : List (String × Detail) :=
  let existing := ((rows.find? (·.1 = m.pkgbase)).map Prod.snd).getD ⟨false, false, [], []⟩
  let detail := {
    changed := existing.changed || m.changed
    removed := existing.removed || m.removed
    affectedBy := m.affectedBy.foldl (fun causes cause => causes.insert cause) existing.affectedBy
    targets := existing.targets.insert architecture }
  if rows.any (·.1 = m.pkgbase) then rows.map fun row => if row.1 = m.pkgbase then (m.pkgbase, detail) else row
  else rows ++ [(m.pkgbase, detail)]

def addPlan (rows : List (String × Detail)) (plan : RawPlan) : List (String × Detail) :=
  (plan.members.getD []).foldl (addMember plan.architecture) rows

section
variable (collate : String → String → Bool)

/-- `collate` says of two names that `localeCompare` does not put the second before the first. -/
def reportMembers (report : RebuildScopeReport) : List (String × Detail) :=
  (report.plans.foldl addPlan []).insertionSort fun a b => collate a.1 b.1 = true

end

/-! ## Previews -/

inductive BlockerCode where
  | catalogMapping | recipeMapping | nativeTarget | scope
  deriving DecidableEq

structure RebuildScopeBlocker where
  code : BlockerCode
  pkgbase : Option String
  architecture : Option Architecture
  deriving DecidableEq

structure RebuildScopeMember where
  pkgbase : String
  catalogRevision : Option Nat
  catalogSha256 : Option String
  recipeRevisionId : Option String
  changed : Bool
  removed : Bool
  affectedBy : List String
  targets : List Architecture
  cause : CohortCause
  reason : String

def memberReason (affectedBy : List String) : String :=
  if affectedBy ≠ [] then "Rebuild scope affected by " ++ ", ".intercalate (Rebuild.sorted affectedBy) ++ "."
  else "Changed package is a direct rebuild seed."

def sortedTargets (targets : List Architecture) : List Architecture :=
  targets.insertionSort fun a b => UnitsLE a.text b.text

/-- A member without a current admitted policy. -/
def unmapped (pkgbase : String) (detail : Detail) : RebuildScopeMember × List RebuildScopeBlocker :=
  (⟨pkgbase, none, none, none, detail.changed, detail.removed, Rebuild.sorted detail.affectedBy,
    sortedTargets detail.targets, if detail.changed then .sourceUpdate else .rebuild,
    "Current admitted catalog mapping is required."⟩, [⟨.catalogMapping, some pkgbase, none⟩])

/-- The member of the cohort's scope of a name. -/
def scopeByName (scope : List CohortMember) (pkgbase : String) : Option CohortMember :=
  (scope.filter (·.pkgbase = pkgbase)).getLast?

def catalogBlockers (scope : List CohortMember) (pkgbase : String) (record : CatalogRecord) : List RebuildScopeBlocker :=
  if (scopeByName scope pkgbase).any (fun m => m.catalogRevision = record.revision ∧ m.catalogSha256 = record.manifestSha256) = true
  then [] else [⟨.catalogMapping, some pkgbase, none⟩]

/-- `recipeMatches`, and the sign-offs. -/
def recipeReviewed (c : Catalog) (pkgbase : String) (policy : Policy) (bound : MemberRecipe) : Bool :=
  match c.recipe bound.id with
  | none => false
  | some (revision, request) =>
    revision.manifestSha256 = bound.manifestSha256 && c.latest revision.requestId = bound.id && request.name = pkgbase &&
      request.upstreamUrl = policy.upstreamUrl && request.sourceKind = policy.sourceKind && request.area = policy.ownerArea &&
      ["blocked", "rejected", "generating"].all (· ≠ request.status) && 2 ≤ revision.kinds

def recipeBlockers (c : Catalog) (scope : List CohortMember) (pkgbase : String) (policy : Policy) : List RebuildScopeBlocker :=
  match (scopeByName scope pkgbase).bind (·.recipe) with
  | none => [⟨.recipeMapping, some pkgbase, none⟩]
  | some recipe =>
    if recipe.id ≠ "" ∧ recipeReviewed c pkgbase policy recipe = true then [] else [⟨.recipeMapping, some pkgbase, none⟩]

def hasMember (report : RebuildScopeReport) (architecture : Architecture) (pkgbase : String) : Bool :=
  match report.plans.find? (·.architecture = architecture) with
  | none => false
  | some plan => (plan.members.getD []).any (·.pkgbase = pkgbase)

def targetBlockers (report : RebuildScopeReport) (pkgbase : String) (policy : Policy) : List RebuildScopeBlocker :=
  (report.requiredArchitectures.filter fun architecture => policy.architectures.contains architecture &&
    !policy.architectureExceptions.contains architecture && !hasMember report architecture pkgbase).map
    fun architecture => ⟨.nativeTarget, some pkgbase, some architecture⟩

def previewMember (c : Catalog) (scope : List CohortMember) (report : RebuildScopeReport) (row : String × Detail) :
    Except PolicyError (RebuildScopeMember × List RebuildScopeBlocker) :=
  match c.packages row.1 with
  | none => .ok (unmapped row.1 row.2)
  | some record =>
    if record.admittedRevision ≠ some record.revision then .ok (unmapped row.1 row.2)
    else do
      let policy ← c.policy record.manifestJson
      pure (⟨row.1, some record.revision, some record.manifestSha256,
        ((scopeByName scope row.1).bind (·.recipe)).map (·.id), row.2.changed, row.2.removed, Rebuild.sorted row.2.affectedBy,
        sortedTargets row.2.targets, if row.2.changed then .sourceUpdate else .rebuild, memberReason row.2.affectedBy⟩,
        catalogBlockers scope row.1 record ++ recipeBlockers c scope row.1 policy ++ targetBlockers report row.1 policy)

def requiredArchitectures : List Architecture := [.x86_64, .aarch64]

def planBlockers (plan : RawPlan) : List RebuildScopeBlocker :=
  (if plan.members.isNone then [⟨.nativeTarget, none, some plan.architecture⟩] else []) ++
    plan.missingSeeds.map fun seed => ⟨.nativeTarget, some seed, some plan.architecture⟩

structure RebuildScopePreview where
  expectedRevision : Nat
  lane : Lane
  members : List RebuildScopeMember
  blockers : List RebuildScopeBlocker

def RebuildScopePreview.complete (preview : RebuildScopePreview) : Bool := preview.members ≠ [] && preview.blockers = []

section
variable (collate : String → String → Bool)

def previewRebuildCohort (c : Catalog) (revision : Nat) (lane : Lane) (scope : List CohortMember) (report : RebuildScopeReport) :
    Except PolicyError RebuildScopePreview := do
  let rows ← (reportMembers collate report).mapM (previewMember c scope report)
  let omitted := requiredArchitectures.filter fun architecture => !report.requiredArchitectures.contains architecture
  pure ⟨revision, lane, rows.map Prod.fst, omitted.map (fun architecture => ⟨.nativeTarget, none, some architecture⟩) ++
    rows.flatMap Prod.snd ++ report.plans.flatMap planBlockers ++
    if rows.length > 100000 then [⟨.scope, none, none⟩] else []⟩

end

/-! ## Drafts -/

/-- A member as a draft sends it. A revision that is missing is sent as `null`, which no
schema takes, and stands here as one that is too small. -/
def RebuildScopeMember.input (m : RebuildScopeMember) : MemberInput :=
  ⟨m.pkgbase, m.catalogRevision.getD 0, m.recipeRevisionId, m.cause, units m.reason⟩

/-- `slice(offset, offset + 100)`, for every hundredth offset. -/
def memberChunks (members : List RebuildScopeMember) : List (List RebuildScopeMember) :=
  (List.range ((members.length + 99) / 100)).map fun i => (members.drop (100 * i)).take 100

def submitChunk (c : Catalog) (actor : Option Actor) (u : ScopeUpload) (chunk : List RebuildScopeMember × Nat) :
    Except PolicyError ScopeUpload :=
  appendCohortScope c actor u chunk.2 (chunk.1.map RebuildScopeMember.input)

/-- `createRebuildCohortDraft`, to the seal, for a proposal that is new and the manifest `base` of the cohort. -/
def createRebuildCohortDraft (c : Catalog) (actor : Option Actor) (base : String) (preview : RebuildScopePreview) :
    Except PolicyError ScopeUpload :=
  if preview.complete = false then
    reject "Resolve current catalog, recipe and native-target mappings before creating the cohort draft." 409
  else do
    let reviewer ← humanMaintainer actor ""
    (memberChunks preview.members).zipIdx.foldlM (submitChunk c actor)
      (ScopeUpload.fresh preview.lane (some preview.expectedRevision) (some base) preview.members.length reviewer.id)

/-! ## Reasons -/

theorem printable_of_isNameChar {ch : Char} (h : isNameChar ch = true) : 0x20 < ch.toNat ∧ ch.toNat < 0x7F := by
  simp only [isNameChar, isLowerAlnum, Bool.or_eq_true, Bool.and_eq_true, decide_eq_true_eq] at h
  rcases h with (⟨hl, hu⟩ | ⟨hl, hu⟩) | h
  · have h1 : 'a'.toNat ≤ ch.toNat := hl
    have h2 : ch.toNat ≤ 'z'.toNat := hu
    simp only [Char.reduceToNat] at h1 h2
    omega
  · have h1 : '0'.toNat ≤ ch.toNat := hl
    have h2 : ch.toNat ≤ '9'.toNat := hu
    simp only [Char.reduceToNat] at h1 h2
    omega
  · have hall : "@._+-".toList.all (fun d => decide (0x20 < d.toNat ∧ d.toNat < 0x7F)) = true := by decide
    exact of_decide_eq_true (List.all_eq_true.mp hall ch (List.contains_iff_mem.mp h))

theorem printable_of_isPackageName {name : List Char} (h : isPackageName name = true) {ch : Char} (hch : ch ∈ name) :
    0x20 < ch.toNat ∧ ch.toNat < 0x7F := by
  cases name with
  | nil => cases hch
  | cons first rest =>
    simp only [isPackageName, isWord, Bool.and_eq_true, List.all_eq_true] at h
    obtain ⟨⟨hfirst, hrest⟩, -⟩ := h
    rcases List.mem_cons.mp hch with rfl | hch
    · exact printable_of_isNameChar (by simp [isNameChar, hfirst])
    · exact printable_of_isNameChar (hrest ch hch)

theorem mem_intercalate {sep : List Char} {parts : List (List Char)} {ch : Char} (h : ch ∈ sep.intercalate parts) :
    ch ∈ sep ∨ ∃ part ∈ parts, ch ∈ part := by
  induction parts with
  | nil => simp at h
  | cons part parts ih =>
    cases parts with
    | nil => exact .inr ⟨part, List.mem_cons_self, by simpa using h⟩
    | cons next parts =>
      rw [List.intercalate_cons_cons] at h
      rcases List.mem_append.mp h with h | h
      · rcases List.mem_append.mp h with h | h
        · exact .inr ⟨part, List.mem_cons_self, h⟩
        · exact .inl h
      · exact (ih h).imp id fun ⟨p, hp, hc⟩ => ⟨p, List.mem_cons_of_mem _ hp, hc⟩

/-- Printable text between two marks is taken as it is. -/
theorem reasonText_printable {s : JsString} {first last : UInt16} {middle : JsString} (hs : s = first :: middle ++ [last])
    (hfirst : isJsSpace first = false) (hlast : isJsSpace last = false) (hcontrol : s.any isControl = false) :
    reasonText s = if s.length ≤ 2000 then some s else none := by
  have htrim : trim s = s := by
    rw [trim, hs, List.cons_append, List.dropWhile_cons_of_neg (by simp [hfirst]), ← List.cons_append, List.reverse_append,
      List.reverse_singleton, List.singleton_append, List.dropWhile_cons_of_neg (by simp [hlast]), List.reverse_cons,
      List.reverse_reverse]
  have hne : s ≠ [] := by
    rw [hs]
    simp
  rw [reasonText, htrim]
  by_cases hlength : s.length ≤ 2000
  · rw [if_pos hlength, if_neg (by simp [hne, hcontrol, hlength])]
  · rw [if_neg hlength, if_pos (.inr (.inl (Nat.lt_of_not_le hlength)))]

theorem units_printable {s : String} (h : ∀ ch ∈ s.toList, 0x1F < ch.toNat ∧ ch.toNat < 0x7F) :
    (units s).any isControl = false := by
  rw [List.any_eq_false]
  intro u hu
  obtain ⟨ch, hch, hu⟩ := List.mem_flatMap.mp hu
  obtain ⟨hlow, hhigh⟩ := h ch hch
  rw [encodeUnit, if_pos (by omega), List.mem_singleton] at hu
  subst hu
  have hn : (UInt16.ofNat ch.toNat).toNat = ch.toNat := toNat_unit (by omega)
  simp only [isControl, Bool.or_eq_true, decide_eq_true_eq, UInt16.le_iff_toNat_le, ← UInt16.toNat_inj, hn, not_or]
  exact ⟨by simp; omega, by simp; omega⟩

/-- The reason of a preview is taken when it is short enough. -/
theorem reasonText_memberReason {causes : List String} (h : ∀ cause ∈ causes, isPackageName cause.toList = true) :
    reasonText (units (memberReason causes)) =
      if (units (memberReason causes)).length ≤ 2000 then some (units (memberReason causes)) else none := by
  rw [memberReason]
  by_cases hne : causes ≠ []
  · rw [if_pos hne]
    have hstart : units "Rebuild scope affected by " = 0x52 :: (units "Rebuild scope affected by ").tail := by decide
    have hstop : units "." = [0x2E] := by decide
    refine @reasonText_printable _ 0x52 0x2E
      ((units "Rebuild scope affected by ").tail ++ units (", ".intercalate (Rebuild.sorted causes))) ?_ (by decide) (by decide) ?_
    · rw [units_append, units_append, hstop, ← List.cons_append, ← hstart]
    · refine units_printable fun ch hch => ?_
      have hfixed {text : String} (htext : text.toList.all (fun d => decide (0x1F < d.toNat ∧ d.toNat < 0x7F)) = true) :
          ∀ d ∈ text.toList, 0x1F < d.toNat ∧ d.toNat < 0x7F := fun d hd =>
        of_decide_eq_true (List.all_eq_true.mp htext d hd)
      rw [String.toList_append, String.toList_append, List.mem_append, List.mem_append, String.toList_intercalate] at hch
      rcases hch with (hch | hch) | hch
      · exact hfixed (by decide) ch hch
      · rcases mem_intercalate hch with hch | ⟨part, hpart, hch⟩
        · exact hfixed (by decide) ch hch
        · obtain ⟨cause, hcause, rfl⟩ := List.mem_map.mp hpart
          have hp := printable_of_isPackageName (h cause (Rebuild.mem_sorted.mp hcause)) hch
          omega
      · exact hfixed (by decide) ch hch
  · rw [if_neg hne]
    decide

/-! ## Complete previews -/

/-- Rows of different package bases, and only package names in them. -/
structure RowsNamed (rows : List (String × Detail)) : Prop where
  once : (rows.map Prod.fst).Nodup
  named : ∀ row ∈ rows, isPackageName row.1.toList = true
  causes : ∀ row ∈ rows, ∀ cause ∈ row.2.affectedBy, isPackageName cause.toList = true

theorem mem_foldl_insert {l s : List String} {x : String} (h : x ∈ l.foldl (fun s y => s.insert y) s) : x ∈ s ∨ x ∈ l := by
  induction l generalizing s with
  | nil => exact .inl h
  | cons y l ih =>
    rcases ih h with h | h
    · rcases List.mem_insert_iff.mp h with rfl | h
      · exact .inr List.mem_cons_self
      · exact .inl h
    · exact .inr (List.mem_cons_of_mem _ h)

theorem RowsNamed.addMember {rows : List (String × Detail)} (h : RowsNamed rows) (architecture : Architecture) (m : PlanMember) :
    RowsNamed (addMember architecture rows m) := by
  have hexisting : ∀ cause ∈ (((rows.find? (·.1 = m.pkgbase)).map Prod.snd).getD ⟨false, false, [], []⟩).affectedBy,
      isPackageName cause.toList = true := by
    intro cause hcause
    cases hfind : rows.find? (·.1 = m.pkgbase) with
    | none =>
      rw [hfind] at hcause
      cases hcause
    | some row =>
      rw [hfind] at hcause
      exact h.causes row (List.mem_of_find?_eq_some hfind) cause hcause
  have hcauses : ∀ cause ∈ m.affectedBy.foldl (fun causes cause => causes.insert cause)
      (((rows.find? (·.1 = m.pkgbase)).map Prod.snd).getD ⟨false, false, [], []⟩).affectedBy, isPackageName cause.toList = true :=
    fun cause hcause => (mem_foldl_insert hcause).elim (hexisting cause) (m.causesNamed cause)
  rw [Scope.addMember]
  split_ifs with hany
  · have hkeys (detail : Detail) : (rows.map fun row => if row.1 = m.pkgbase then (m.pkgbase, detail) else row).map Prod.fst =
        rows.map Prod.fst := by
      rw [List.map_map]
      refine List.map_congr_left fun row _ => ?_
      rw [Function.comp_apply]
      split_ifs with heq
      · exact heq.symm
      · rfl
    refine ⟨?_, fun row hrow => ?_, fun row hrow cause hcause => ?_⟩
    · rw [hkeys]
      exact h.once
    · obtain ⟨old, hold, rfl⟩ := List.mem_map.mp hrow
      split_ifs
      · exact m.named
      · exact h.named old hold
    · obtain ⟨old, hold, rfl⟩ := List.mem_map.mp hrow
      split_ifs at hcause
      · exact hcauses cause hcause
      · exact h.causes old hold cause hcause
  · refine ⟨?_, fun row hrow => ?_, fun row hrow cause hcause => ?_⟩
    · rw [List.map_append, List.nodup_append]
      refine ⟨h.once, List.nodup_singleton _, fun key hkey key' hkey' heq => ?_⟩
      obtain ⟨row, hrow, rfl⟩ := List.mem_map.mp hkey
      refine hany (List.any_eq_true.mpr ⟨row, hrow, decide_eq_true ?_⟩)
      rw [heq]
      exact List.mem_singleton.mp hkey'
    · rcases List.mem_append.mp hrow with hrow | hrow
      · exact h.named row hrow
      · rw [List.mem_singleton.mp hrow]
        exact m.named
    · rcases List.mem_append.mp hrow with hrow | hrow
      · exact h.causes row hrow cause hcause
      · rw [List.mem_singleton.mp hrow] at hcause
        exact hcauses cause hcause

theorem foldl_addMember {architecture : Architecture} {ms : List PlanMember} {rows : List (String × Detail)} (h : RowsNamed rows) :
    RowsNamed (ms.foldl (addMember architecture) rows) := by
  induction ms generalizing rows with
  | nil => exact h
  | cons m ms ih => exact ih (h.addMember architecture m)

theorem foldl_addPlan {plans : List RawPlan} {rows : List (String × Detail)} (h : RowsNamed rows) :
    RowsNamed (plans.foldl addPlan rows) := by
  induction plans generalizing rows with
  | nil => exact h
  | cons plan plans ih => exact ih (foldl_addMember h)

theorem reportMembers_named (collate : String → String → Bool) (report : RebuildScopeReport) :
    RowsNamed (reportMembers collate report) := by
  have h : RowsNamed (report.plans.foldl addPlan []) := foldl_addPlan ⟨.nil, by simp, by simp⟩
  have hperm := List.perm_insertionSort (fun a b : String × Detail => collate a.1 b.1 = true) (report.plans.foldl addPlan [])
  exact ⟨(hperm.map Prod.fst).nodup_iff.mpr h.once, fun row hrow => h.named row (hperm.mem_iff.mp hrow),
    fun row hrow => h.causes row (hperm.mem_iff.mp hrow)⟩

/-- A row without blockers is a member that the catalog has. -/
theorem previewMember_mapped {c : Catalog} {scope : List CohortMember} {report : RebuildScopeReport} {row : String × Detail}
    {m : RebuildScopeMember} (hnamed : isPackageName row.1.toList = true)
    (hcauses : ∀ cause ∈ row.2.affectedBy, isPackageName cause.toList = true)
    (h : previewMember c scope report row = .ok (m, [])) :
    ∃ record policy id revision request, Mapped c m.input record policy id revision request := by
  rw [previewMember] at h
  cases hrecord : c.packages row.1 with
  | none =>
    rw [hrecord] at h
    cases h
  | some record =>
    rw [hrecord] at h
    dsimp only at h
    by_cases hadmitted : record.admittedRevision ≠ some record.revision
    · rw [if_pos hadmitted] at h
      cases h
    · rw [if_neg hadmitted] at h
      obtain ⟨policy, hpolicy, h⟩ := bind_ok.mp h
      obtain ⟨rfl, hblockers⟩ := Prod.mk.injEq _ _ _ _ ▸ Except.ok.inj h
      obtain ⟨hrest, -⟩ := List.append_eq_nil_iff.mp hblockers
      obtain ⟨-, hrecipe⟩ := List.append_eq_nil_iff.mp hrest
      rw [recipeBlockers] at hrecipe
      cases hbound : (scopeByName scope row.1).bind (·.recipe) with
      | none =>
        rw [hbound] at hrecipe
        cases hrecipe
      | some recipe =>
        rw [hbound] at hrecipe
        dsimp only at hrecipe
        split_ifs at hrecipe with hreviewed
        have hr := hreviewed.2
        rw [recipeReviewed, Catalog.recipe] at hr
        cases hrevision : c.revisions recipe.id with
        | none => simp [hrevision] at hr
        | some revision =>
          cases hrequest : c.requests revision.requestId with
          | none => simp [hrevision, hrequest] at hr
          | some request =>
            simp only [hrevision, hrequest, Option.bind_eq_bind, Option.bind_some, pure, Bool.and_eq_true, decide_eq_true_eq] at hr
            obtain ⟨⟨⟨⟨⟨⟨⟨hmanifest, hlatest⟩, hname⟩, hupstream⟩, hsource⟩, harea⟩, -⟩, -⟩ := hr
            refine ⟨record, policy, recipe.id, revision, request, hnamed, hrecord, hpolicy, rfl, ?_, hrevision, hrequest, hlatest,
              hname, hupstream, hsource, harea, reasonText_memberReason hcauses⟩
            simp [RebuildScopeMember.input]

theorem previewMember_pkgbase {c : Catalog} {scope : List CohortMember} {report : RebuildScopeReport} {row : String × Detail}
    {result : RebuildScopeMember × List RebuildScopeBlocker} (h : previewMember c scope report row = .ok result) :
    result.1.pkgbase = row.1 := by
  rw [previewMember] at h
  cases hrecord : c.packages row.1 with
  | none =>
    rw [hrecord] at h
    cases h
    rfl
  | some record =>
    rw [hrecord] at h
    dsimp only at h
    by_cases hadmitted : record.admittedRevision ≠ some record.revision
    · rw [if_pos hadmitted] at h
      cases h
      rfl
    · rw [if_neg hadmitted] at h
      obtain ⟨policy, -, h⟩ := bind_ok.mp h
      cases h
      rfl

structure CompleteMembers (c : Catalog) (members : List RebuildScopeMember) : Prop where
  mapped : AllMapped c (members.map RebuildScopeMember.input)
  once : (members.map (·.pkgbase)).Nodup
  some : members ≠ []
  few : members.length ≤ 100000

theorem complete_members {collate : String → String → Bool} {c : Catalog} {revision : Nat} {lane : Lane} {scope : List CohortMember}
    {report : RebuildScopeReport} {preview : RebuildScopePreview}
    (h : previewRebuildCohort collate c revision lane scope report = .ok preview)
    (hcomplete : preview.complete = true) : CompleteMembers c preview.members := by
  obtain ⟨rows, hrows, h⟩ := bind_ok.mp h
  cases h
  simp only [RebuildScopePreview.complete, Bool.and_eq_true, decide_eq_true_eq, List.append_eq_nil_iff] at hcomplete
  obtain ⟨hsome, ⟨⟨-, hblockers⟩, -⟩, hlimit⟩ := hcomplete
  have hnamed := reportMembers_named collate report
  refine ⟨?_, ?_, hsome, ?_⟩
  · intro m hm
    rw [List.map_map] at hm
    obtain ⟨⟨member, blockers⟩, hresult, rfl⟩ := List.mem_map.mp hm
    have hnone : blockers = [] := List.flatMap_eq_nil_iff.mp hblockers _ hresult
    subst hnone
    obtain ⟨row, hrow, hpreview⟩ := mem_mapM hrows hresult
    exact previewMember_mapped (hnamed.named row hrow) (hnamed.causes row hrow) hpreview
  · have hnames : rows.map (fun result => result.1.pkgbase) = (reportMembers collate report).map Prod.fst :=
      map_of_mapM (fun _ _ => previewMember_pkgbase) hrows
    rw [List.map_map]
    exact hnames ▸ hnamed.once
  · rw [List.length_map]
    by_contra hmany
    rw [if_pos (Nat.lt_of_not_le hmany)] at hlimit
    cases hlimit

/-! ## Chunks of a hundred -/

theorem flatten_slices {α : Type} (l : List α) (n : Nat) :
    ((List.range n).map fun i => (l.drop (100 * i)).take 100).flatten = l.take (100 * n) := by
  induction n with
  | zero => simp
  | succ n ih =>
    rw [List.range_succ, List.map_append, List.flatten_append, ih, Nat.mul_succ, List.take_add]
    simp

theorem memberChunks_flatten (members : List RebuildScopeMember) : (memberChunks members).flatten = members := by
  rw [memberChunks, flatten_slices]
  exact List.take_of_length_le (by omega)

theorem memberChunks_length (members : List RebuildScopeMember) : (memberChunks members).length = (members.length + 99) / 100 := by
  simp [memberChunks]

theorem mem_memberChunks {members chunk : List RebuildScopeMember} (h : chunk ∈ memberChunks members) :
    chunk ≠ [] ∧ chunk.length ≤ 100 ∧ ∀ m ∈ chunk, m ∈ members := by
  obtain ⟨i, hi, rfl⟩ := List.mem_map.mp h
  rw [List.mem_range] at hi
  refine ⟨fun hnil => ?_, List.length_take_le _ _, fun m hm => List.mem_of_mem_drop (List.mem_of_mem_take hm)⟩
  have hlength := congrArg List.length hnil
  rw [List.length_take, List.length_drop, List.length_nil] at hlength
  omega

theorem humanMaintainer_any {actor : Option Actor} {area : String} {reviewer : Actor}
    (h : humanMaintainer actor area = .ok reviewer) : humanMaintainer actor "" = .ok reviewer := by
  obtain ⟨actor', hactor, h⟩ := bind_ok.mp h
  refine bind_ok.mpr ⟨actor', ?_, h⟩
  cases actor with
  | none => cases hactor
  | some actor =>
    obtain ⟨hrole, hactor⟩ := guard_ok.mp hactor
    rw [not_or] at hrole
    cases hactor
    exact guard_ok.mpr ⟨by simpa using hrole.1, rfl⟩

/-! ## Drafts -/

def sentChunks (members : List RebuildScopeMember) : List (List MemberInput) :=
  (memberChunks members).map fun chunk => chunk.map RebuildScopeMember.input

theorem sentChunks_flatten (members : List RebuildScopeMember) :
    (sentChunks members).flatten = members.map RebuildScopeMember.input := by
  rw [sentChunks, ← List.map_flatten, memberChunks_flatten]

/-- What the chunks of a complete preview are to be: members that the catalog takes, stored
in a MiB for each chunk, and no name of a chunk after one of a later chunk in code units. -/
def Ready (c : Catalog) (actor : Option Actor) (preview : RebuildScopePreview) : Prop :=
  (∀ m ∈ preview.members, Takes c actor preview.lane m.input) ∧
    (∀ chunk ∈ memberChunks preview.members,
      (encode (membersJson (storedMembers c (chunk.map RebuildScopeMember.input)))).length ≤ maxScopeBytes) ∧
    (memberChunks preview.members).Pairwise fun a b => ∀ x ∈ a, ∀ y ∈ b, ¬UnitsLE y.pkgbase x.pkgbase

theorem ready_iff {c : Catalog} {actor : Option Actor} {preview : RebuildScopePreview} :
    Ready c actor preview ↔
      AllAccepted c actor preview.lane [] (sentChunks preview.members) := by
  have hmembers : (∀ m ∈ preview.members, Takes c actor preview.lane m.input) ↔
      ∀ chunk ∈ memberChunks preview.members, ∀ m ∈ chunk, Takes c actor preview.lane m.input := by
    conv_lhs => rw [← memberChunks_flatten preview.members]
    simp only [List.mem_flatten]
    constructor
    · intro h chunk hchunk m hm
      exact h m ⟨chunk, hchunk, hm⟩
    · rintro h m ⟨chunk, hchunk, hm⟩
      exact h chunk hchunk m hm
  simp only [Ready, AllAccepted, Accepted, sentChunks, Above, hmembers, List.forall_mem_map, List.pairwise_map,
    List.not_mem_nil, false_imp_iff,
    implies_true, and_true]
  constructor
  · rintro ⟨htakes, hsize, habove⟩
    exact ⟨fun chunk hchunk => ⟨htakes chunk hchunk, hsize chunk hchunk⟩, habove⟩
  · rintro ⟨haccepted, habove⟩
    exact ⟨fun chunk hchunk => (haccepted chunk hchunk).1, fun chunk hchunk => (haccepted chunk hchunk).2, habove⟩

theorem draft_taken {collate : String → String → Bool} {c : Catalog} {revision : Nat} {lane : Lane} {scope : List CohortMember}
    {report : RebuildScopeReport} {preview : RebuildScopePreview} (actor : Option Actor) (base : String)
    (h : previewRebuildCohort collate c revision lane scope report = .ok preview) (hcomplete : preview.complete = true) :
    ((∃ u, createRebuildCohortDraft c actor base preview = .ok u) ↔ Ready c actor preview) ∧
      ∀ u, createRebuildCohortDraft c actor base preview = .ok u → sealCoverage u = .ok () := by
  have hmembers := complete_members h hcomplete
  have hfold (u : ScopeUpload) : (memberChunks preview.members).zipIdx.foldlM (submitChunk c actor) u =
      ((sentChunks preview.members).zipIdx 0).foldlM (appendChunk c actor) u := by
    rw [sentChunks, List.zipIdx_map, List.foldlM_map]
    rfl
  have hflatten := sentChunks_flatten preview.members
  have hlength : (sentChunks preview.members).flatten.length = preview.members.length := by rw [hflatten, List.length_map]
  rw [createRebuildCohortDraft, if_neg (by simp [hcomplete]), ready_iff]
  cases hactor : humanMaintainer actor "" with
  | error e =>
    refine ⟨iff_of_false (fun ⟨u, hu⟩ => by cases hu) fun hall => ?_, fun u hu => by cases hu⟩
    obtain ⟨m, hm⟩ := List.exists_mem_of_ne_nil _ hmembers.some
    obtain ⟨record, policy, id, revision, request, hmapped⟩ := hmembers.mapped m.input (List.mem_map_of_mem hm)
    obtain ⟨-, -, -, ⟨reviewer, hreviewer⟩, -⟩ := hmapped.takes_iff.mp ((ready_iff.mpr hall).1 m hm)
    rw [humanMaintainer_any hreviewer] at hactor
    cases hactor
  | ok reviewer =>
    have hindex : ([] ++ sentChunks preview.members).length ≤ 4096 := by
      rw [List.nil_append, sentChunks, List.length_map, memberChunks_length]
      have hfew := hmembers.few
      omega
    have hshort : ∀ input ∈ sentChunks preview.members,
        input ≠ [] ∧ input.length ≤ 100 ∧ AllMapped c input := by
      intro input hinput
      obtain ⟨chunk, hchunk, rfl⟩ := List.mem_map.mp hinput
      obtain ⟨hne, hshort, hsub⟩ := mem_memberChunks hchunk
      refine ⟨by simpa using hne, by simpa using hshort, fun m hm => ?_⟩
      obtain ⟨member, hmember, rfl⟩ := List.mem_map.mp hm
      exact hmembers.mapped member.input (List.mem_map_of_mem (hsub member hmember))
    have hnodup : (([] ++ sentChunks preview.members).flatten.map MemberInput.pkgbase).Nodup := by
      rw [List.nil_append, hflatten, List.map_map]
      exact hmembers.once
    have hroom : ([] ++ sentChunks preview.members).flatten.length ≤
        preview.members.length := by
      rw [List.nil_append, hlength]
    obtain ⟨htaken, hholds⟩ := appends_ok hactor
      (holds_fresh c preview.lane (some preview.expectedRevision) (some base) preview.members.length reviewer.id)
      hindex hshort hnodup
      hroom
    have hrun (u : ScopeUpload) : (do
          let reviewer ← Except.ok reviewer
          (memberChunks preview.members).zipIdx.foldlM (submitChunk c actor)
            (ScopeUpload.fresh preview.lane (some preview.expectedRevision) (some base) preview.members.length
              reviewer.id) : Except PolicyError ScopeUpload) = .ok u ↔
        ((sentChunks preview.members).zipIdx 0).foldlM (appendChunk c actor)
          (ScopeUpload.fresh preview.lane (some preview.expectedRevision) (some base) preview.members.length reviewer.id) = .ok u := by
      rw [← hfold]
      rfl
    refine ⟨(exists_congr hrun).trans htaken, fun u hu => ?_⟩
    have hlast := hholds u ((hrun u).mp hu)
    rw [List.nil_append, ← hlength] at hlast
    refine hlast.sealable ?_
    rw [hflatten]
    simpa using hmembers.some

/-- When the chunks of a complete preview are taken, up to the seal. -/
theorem createRebuildCohortDraft_iff {collate : String → String → Bool} {c : Catalog} {revision : Nat} {lane : Lane} {scope : List CohortMember}
    {report : RebuildScopeReport} {preview : RebuildScopePreview} (actor : Option Actor) (base : String)
    (h : previewRebuildCohort collate c revision lane scope report = .ok preview) (hcomplete : preview.complete = true) :
    (∃ u, createRebuildCohortDraft c actor base preview = .ok u ∧ sealCoverage u = .ok ()) ↔ Ready c actor preview := by
  obtain ⟨htaken, hsealed⟩ := draft_taken actor base h hcomplete
  rw [← htaken]
  exact exists_congr fun u => and_iff_left_of_imp (hsealed u)

/-! ## A collation -/

/-- The root order of the characters of package names. -/
def rootWeight (ch : Char) : Nat := if ch = '_' then 0 else if ch = '-' then 1 else if ch = '.' then 2 else if ch = '@' then 3
  else if ch = '+' then 4 else ch.toNat

def rootCollate (a b : String) : Bool := decide (a.toList.map rootWeight ≤ b.toList.map rootWeight)

/-- The digest of `{}`. -/
def emptySha256 : String := "44136fa355b3678a1146ad16f7e8649e94fb4fc21fe77e8310c060f61caaff8a"

def samplePolicy : Policy :=
  ⟨.opr, "system", "https://example.org", "git", [.aarch64, .x86_64], [], .null, by decide⟩

/-- Every package has a policy, and a recipe of its own name. -/
def sampleCatalog : Catalog where
  packages := fun _ => some ⟨1, some 1, "\x7b\x7d".toList, emptySha256, by decide⟩
  policy := fun _ => .ok samplePolicy
  revisions := fun id => some ⟨id, "", .ok "1-1", [.x86_64, .aarch64], 2⟩
  requests := fun id => some ⟨id, "https://example.org", "git", "system", "ready"⟩
  latest := id
  sha256 := fun _ => emptySha256

def hundredAndOne : List String :=
  ((List.range 99).map fun n => String.ofList ['a', Nat.digitChar (n / 10), Nat.digitChar (n % 10)]) ++ ["p_1", "p-1"]

def sampleScope (names : List String) : List CohortMember :=
  names.map fun name => ⟨name, 1, emptySha256, samplePolicy, some ⟨name, "", "1-1", name⟩, .rebuild, []⟩

def sampleMembers (names : List String) : List PlanMember := names.filterMap fun name =>
  if h : isPackageName name.toList = true then some ⟨name, true, false, [], h, by simp⟩ else none

def sampleReport (names : List String) : RebuildScopeReport :=
  ⟨[.x86_64, .aarch64], [⟨.x86_64, [], some (sampleMembers names)⟩, ⟨.aarch64, [], some (sampleMembers names)⟩]⟩

def sampleReviewer : Actor := ⟨"github:7", .admin, []⟩

/-- Two packages are taken. -/
theorem pair_ready : ∃ preview,
    previewRebuildCohort rootCollate sampleCatalog 1 .opr (sampleScope ["p_1", "p-1"]) (sampleReport ["p_1", "p-1"]) = .ok preview ∧
      Ready sampleCatalog (some sampleReviewer) preview := by
  have hpreview : ((previewRebuildCohort rootCollate sampleCatalog 1 .opr (sampleScope ["p_1", "p-1"])
      (sampleReport ["p_1", "p-1"])).toOption.any fun preview => preview.complete &&
        (createRebuildCohortDraft sampleCatalog (some sampleReviewer) emptySha256 preview).toOption.any fun u =>
          (sealCoverage u).toOption.isSome) = true := by decide +kernel
  cases h : previewRebuildCohort rootCollate sampleCatalog 1 .opr (sampleScope ["p_1", "p-1"]) (sampleReport ["p_1", "p-1"]) with
  | error e =>
    rw [h] at hpreview
    cases hpreview
  | ok preview =>
    rw [h] at hpreview
    obtain ⟨hcomplete, hsome⟩ := Bool.and_eq_true_iff.mp hpreview
    refine ⟨preview, rfl, (createRebuildCohortDraft_iff (some sampleReviewer) emptySha256 h hcomplete).mp ?_⟩
    cases hu : createRebuildCohortDraft sampleCatalog (some sampleReviewer) emptySha256 preview with
    | error e =>
      rw [hu] at hsome
      cases hsome
    | ok u =>
      refine ⟨u, rfl, ?_⟩
      rw [hu] at hsome
      cases hseal : sealCoverage u with
      | error e =>
        simp [Except.toOption, hseal] at hsome
      | ok done => rfl

/-- A name of the second chunk is before one of the first. -/
def crosses (preview : RebuildScopePreview) : Bool :=
  match memberChunks preview.members with
  | a :: b :: _ => a.any fun x => b.any fun y => decide (UnitsLE y.pkgbase x.pkgbase)
  | _ => false

theorem not_ready_of_crosses {c : Catalog} {actor : Option Actor} {preview : RebuildScopePreview} (h : crosses preview = true) :
    ¬Ready c actor preview := by
  rintro ⟨-, -, hpairs⟩
  rw [crosses] at h
  split at h
  · next a b rest hchunks =>
    rw [hchunks] at hpairs
    obtain ⟨x, hx, h⟩ := List.any_eq_true.mp h
    obtain ⟨y, hy, h⟩ := List.any_eq_true.mp h
    exact (List.pairwise_cons.mp hpairs).1 b List.mem_cons_self x hx y hy (decide_eq_true_eq.mp h)
  · cases h

/-- A hundred and one packages, of which the last two are in the root order and not in the order of their units. -/
theorem collated_chunks_refused : ∃ preview,
    previewRebuildCohort rootCollate sampleCatalog 1 .opr (sampleScope hundredAndOne) (sampleReport hundredAndOne) = .ok preview ∧
      preview.complete = true ∧
        ¬∃ u, createRebuildCohortDraft sampleCatalog (some sampleReviewer) emptySha256 preview = .ok u ∧
          sealCoverage u = .ok () := by
  have hpreview : ((previewRebuildCohort rootCollate sampleCatalog 1 .opr (sampleScope hundredAndOne)
      (sampleReport hundredAndOne)).toOption.any fun preview => preview.complete && crosses preview) = true := by decide +kernel
  cases h : previewRebuildCohort rootCollate sampleCatalog 1 .opr (sampleScope hundredAndOne) (sampleReport hundredAndOne) with
  | error e =>
    rw [h] at hpreview
    cases hpreview
  | ok preview =>
    rw [h] at hpreview
    obtain ⟨hcomplete, hcrosses⟩ := Bool.and_eq_true_iff.mp (hpreview : (preview.complete && crosses preview) = true)
    refine ⟨preview, rfl, hcomplete, fun ⟨u, hu, _⟩ => ?_⟩
    exact not_ready_of_crosses hcrosses ((draft_taken (some sampleReviewer) emptySha256 h hcomplete).1.mp ⟨u, hu⟩)

end Omapkg.Server.Scope
