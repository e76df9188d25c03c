import Mathlib.Data.List.Nodup
import Omapkg.Lib.Fallible
import Omapkg.Server.PacmanDesc
import Omapkg.Server.Urls
/-!
# Plans of dependencies

`planDependencies` of `src/src/lib/server/dependency-plan.ts`: the published packages that a
build's reviewed dependencies need. Each relation that the service knows takes the first of
its providers and then what that one depends on; nothing that was taken is given back.
-/

namespace Omapkg.Server.Plan

open Utf Json Fallible
open Omapkg.Server.Arch (ArchDependency PackageMetadata parsePackageMetadata parseArchRelation
  parseArchDependency satisfiesArchRelation compareArchVersions)

/-! ## Rows -/

inductive PlanChannel where
  | stable | dev
  deriving DecidableEq

/-- A row of the query; a provenance that is no JSON has no value. -/
structure PublishedRow where
  releaseId : String
  name : String
  version : String
  architecture : Architecture
  channel : PlanChannel
  artifactKey : Option String
  signatureKey : Option String
  artifactSha256 : Option String
  artifactSize : Option Int
  artifactFilename : Option String
  provenance : Option (Json String)
  publishedAt : Int

structure PublishedPackage where
  row : PublishedRow
  metadata : PackageMetadata

def maxPackages : Nat := 64

def maxPackageBytes : Int := 4 * 1024 * 1024 * 1024

def maxPlanBytes : Int := 8 * 1024 * 1024 * 1024

def maxSignatureBytes : Int := 1024 * 1024

/-- `/^[a-f0-9]{64}$/`. -/
def isSha256Text (s : String) : Bool := Hash.isHexDigest s.toList

/-- `FILENAME`. -/
def isFilename (s : String) : Bool := Desc.isPackageFilename (units s)

/-- `jsonObject`, and the property `packageMetadata` of what it gives. -/
def packageMetadataOf : Option (Json String) → Option (Json String)
  | some (.obj ms) => property "packageMetadata" (.obj ms)
  | _ => none

/-- The metadata of a row that is published as its build reported. -/
def metadata (row : PublishedRow) : Option PackageMetadata := do
  let parsed ← (packageMetadataOf row.provenance).bind parsePackageMetadata
  let filename := row.artifactFilename.getD ""
  if parsed.name ≠ row.name ∨ parsed.fullVersion ≠ row.version ∨ parsed.architecture ≠ row.architecture ∨
      row.artifactKey ≠ some ("packages/" ++ row.architecture.text ++ "/" ++ filename) ∨
      row.signatureKey.getD "" = "" ∨ isSha256Text (row.artifactSha256.getD "") = false ∨ isFilename filename = false then none
  else
    match row.artifactSize with
    | none => none
    | some size => if Desc.isSize size = false ∨ maxPackageBytes < size then none else some parsed

def publishedPackages (rows : List PublishedRow) : List PublishedPackage :=
  rows.filterMap fun row => (metadata row).map fun metadata => ⟨row, metadata⟩

/-- The names that the service has something for. -/
def knownNames (rows : List PublishedRow) : List String :=
  rows.map (·.name) ++ (publishedPackages rows).flatMap fun item =>
    item.metadata.provides.filterMap fun value => (parseArchRelation value).map (·.name)

/-- `localeCompare` is the runtime's. -/
def candidateOrder (localeCompare : String → String → Int) (left right : PublishedPackage) : Int :=
  if left.row.channel ≠ right.row.channel then if left.row.channel = .stable then -1 else 1
  else
    match compareArchVersions right.row.version.toList left.row.version.toList with
    | some .lt => -1
    | some .gt => 1
    | _ =>
      if left.row.publishedAt ≠ right.row.publishedAt then right.row.publishedAt - left.row.publishedAt
      else localeCompare left.row.releaseId right.row.releaseId

def satisfies (dependency : ArchDependency) (item : PublishedPackage) : Bool :=
  satisfiesArchRelation dependency item.metadata.name item.metadata.fullVersion item.metadata.provides

/-! ## The selection -/

inductive PlanThrow where
  | error (message : String)
  | outOfFuel
  deriving DecidableEq

/-- The two maps of the selection, in the order of insertion. -/
structure Selection where
  selected : List PublishedPackage
  selectedByName : List (String × PublishedPackage)

def Selection.has (s : Selection) (releaseId : String) : Bool := s.selected.any (·.row.releaseId = releaseId)

def Selection.named (s : Selection) (name : String) : Option PublishedPackage :=
  (s.selectedByName.find? (·.1 = name)).map (·.2)

/-- `set` of both maps, where the release is in neither. -/
def Selection.add (s : Selection) (candidate : PublishedPackage) : Selection where
  selected := s.selected ++ [candidate]
  selectedByName := s.selectedByName.filter (·.1 ≠ candidate.row.name) ++ [(candidate.row.name, candidate)]

/-- The conflicts that `owner` declares, against `other`. -/
def checkDeclared (owner other : PublishedPackage) (message : String) : Except PlanThrow Unit :=
  owner.metadata.conflicts.forM fun value =>
    match parseArchDependency value with
    | none => .error (.error s!"published dependency {owner.row.name} has invalid conflict metadata")
    | some relation => if satisfies relation other then .error (.error message) else .ok ()

def checkConflicts (selected : List PublishedPackage) (candidate : PublishedPackage) : Except PlanThrow Unit :=
  selected.forM fun existing => do
    let message := s!"published dependencies {candidate.row.name} and {existing.row.name} conflict"
    checkDeclared candidate existing message
    checkDeclared existing candidate message

/-- What a plan is made from. -/
structure PlanInput where
  rows : List PublishedRow
  architecture : Architecture
  dependencies : List String
  makeDependencies : List String
  localeCompare : String → String → Int

/-- Is a package of the build's architecture, and satisfies a relation. -/
def PlanInput.provides (input : PlanInput) (dependency : ArchDependency) (item : PublishedPackage) : Bool :=
  item.row.architecture = input.architecture && satisfies dependency item

def PlanInput.providers (input : PlanInput) (dependency : ArchDependency) : List PublishedPackage :=
  ((publishedPackages input.rows).filter (input.provides dependency)).mergeSort
    fun left right => candidateOrder input.localeCompare left right ≤ 0

/-- `resolve`; `fuel` bounds its depth. -/
def PlanInput.resolve (input : PlanInput) : Nat → String → String → Selection → Except PlanThrow Selection
  | 0, _, _, _ => .error .outOfFuel
  | fuel + 1, value, owner, s =>
    match parseArchRelation value with
    | none => .error (.error s!"Invalid Arch dependency {value} in {owner}")
    | some dependency =>
      if (knownNames input.rows).contains dependency.name = false then .ok s
      else if s.selected.any (input.provides dependency) = true then .ok s
      else
        match (input.providers dependency).head? with
        | none => .error (.error s!"Known omapkg dependency {value} is not satisfied for {input.architecture.text}")
        | some candidate =>
          if (s.named candidate.row.name).any (·.row.releaseId ≠ candidate.row.releaseId) = true then
            .error (.error s!"Multiple versions of omapkg dependency {candidate.row.name} are required")
          else if s.has candidate.row.releaseId = true then .ok s
          else if maxPackages ≤ s.selected.length then .error (.error "omapkg dependency plan exceeds 64 packages")
          else do
            checkConflicts s.selected candidate
            candidate.metadata.depends.foldlM
              (fun s nested => input.resolve fuel nested candidate.row.name s) (s.add candidate)

/-- As deep as a plan has packages, and once more. -/
def planFuel : Nat := maxPackages + 1

def PlanInput.resolveAll (input : PlanInput) (values : List String) (owner : String) (s : Selection) :
    Except PlanThrow Selection :=
  values.foldlM (fun s value => input.resolve planFuel value owner s) s

/-! ## The plan -/

structure DependencyPlanPackage where
  releaseId : String
  name : String
  version : String
  architecture : Architecture
  filename : String
  url : JsString
  sha256 : String
  size : Int
  signatureUrl : JsString
  signatureSha256 : String

structure DependencyPlan where
  channel : PlanChannel
  publicKeyUrl : JsString
  publicKeyFingerprint : String
  packages : List DependencyPlanPackage
  runtimeReleaseIds : List String

structure ArtifactHead where
  size : Int
  sha256 : Option String

structure SignatureObject where
  size : Int
  bytes : Bytes

/-- What the service runs in: its storage, its settings, the digest of bytes. `origin` is the public origin without
its last slash, where that is one. -/
structure PlanEnv where
  head : String → Option ArtifactHead
  signature : String → Option SignatureObject
  fingerprint : String
  origin : Option JsString
  sha256 : Bytes → String

def packageReference (env : PlanEnv) (item : PublishedPackage) : Except PlanThrow DependencyPlanPackage := do
  let row := item.row
  let changed : PlanThrow := .error s!"published dependency artifact {row.releaseId} is unavailable or changed"
  match env.head (row.artifactKey.getD "") with
  | none => .error changed
  | some artifact =>
    if some artifact.size ≠ row.artifactSize ∨ artifact.sha256.any (fun digest => digest ≠ "" && row.artifactSha256 ≠ some digest) = true then
      .error changed
    else
      match env.signature (row.signatureKey.getD "") with
      | none => .error (.error s!"published dependency signature {row.releaseId} is unavailable")
      | some signature =>
        if Desc.isSize signature.size = false ∨ maxSignatureBytes < signature.size then
          .error (.error s!"published dependency signature {row.releaseId} is invalid")
        else if (signature.bytes.length : Int) ≠ signature.size then
          .error (.error s!"published dependency signature {row.releaseId} changed during read")
        else
          match env.origin, encodeURIComponent (units (row.artifactFilename.getD "")) with
          | some publicOrigin, some encoded =>
            let dir := publicOrigin ++ units (if row.channel = .stable then "/repo/" else "/repo/dev/") ++
              units row.architecture.text ++ units "/"
            .ok {
              releaseId := row.releaseId, name := row.name, version := row.version, architecture := row.architecture,
              filename := row.artifactFilename.getD "", url := dir ++ encoded, sha256 := row.artifactSha256.getD "",
              size := row.artifactSize.getD 0, signatureUrl := dir ++ encoded ++ units ".sig",
              signatureSha256 := env.sha256 signature.bytes }
          | _, _ => .error (.error "public HTTPS origin is not configured")

/-- The loop over the selection, `total` being the bytes before. -/
def references (env : PlanEnv) : List PublishedPackage → Int → Except PlanThrow (List DependencyPlanPackage)
  | [], _ => .ok []
  | item :: rest, total =>
    match item.row.artifactSize with
    | none => .error (.error "omapkg dependency plan exceeds 8 GiB")
    | some size =>
      if size < 1 ∨ maxPackageBytes < size ∨ maxPlanBytes - size < total then
        .error (.error "omapkg dependency plan exceeds 8 GiB")
      else do
        let reference ← packageReference env item
        let others ← references env rest (total + size)
        .ok (reference :: others)

/-- `ID`. -/
def isReleaseId (s : String) : Bool := Arch.isWord isAlnum (fun c => isAlnum c || c = '_' || c = '-') 127 s.toList

/-- `packageSchema`. -/
def isPlanPackage (item : DependencyPlanPackage) : Bool :=
  isReleaseId item.releaseId && Arch.isPackageName item.name.toList && Arch.isVersionText item.version.toList &&
    isFilename item.filename && isSha256Text item.sha256 && 1 ≤ item.size && item.size ≤ maxPackageBytes &&
    isSha256Text item.signatureSha256

/-- `FINGERPRINT`. -/
def isFingerprint (s : String) : Bool := s.toList.length = 40 && s.toList.all Hash.isLowerHex

/-- What `parseDependencyPlan` takes, and gives back as it is. -/
def isDependencyPlan (plan : DependencyPlan) : Bool :=
  let ids := plan.packages.map (·.releaseId)
  isFingerprint plan.publicKeyFingerprint && plan.packages.all isPlanPackage && 1 ≤ plan.packages.length &&
    plan.packages.length ≤ maxPackages &&
    plan.packages.all (fun item =>
      item.filename = item.name ++ "-" ++ item.version ++ "-" ++ item.architecture.text ++ ".pkg.tar.zst" &&
        (compareArchVersions item.version.toList item.version.toList).isSome) &&
    ids.Nodup && (plan.packages.map fun item => item.name ++ ":" ++ item.architecture.text).Nodup &&
    plan.runtimeReleaseIds.Nodup && plan.runtimeReleaseIds.all ids.contains

structure PlannedDependencies where
  plan : Option DependencyPlan
  releaseIds : List String

/-- The digest of the plan, which says nothing more, is left out. -/
def planDependencies (env : PlanEnv) (input : PlanInput) : Except PlanThrow PlannedDependencies :=
  if input.dependencies ++ input.makeDependencies = [] then .ok ⟨none, []⟩
  else do
    let runtime ← input.resolveAll input.dependencies "reviewed runtime" ⟨[], []⟩
    let runtimeReleaseIds := runtime.selected.map (·.row.releaseId)
    let all ← input.resolveAll input.makeDependencies "reviewed build" runtime
    if all.selected = [] then .ok ⟨none, []⟩
    else if isFingerprint env.fingerprint.toLower = false then
      .error (.error "package signing fingerprint is not configured")
    else
      match env.origin with
      | none => .error (.error "public HTTPS origin is not configured")
      | some publicOrigin => do
        let packages ← references env all.selected 0
        let isDev (item : DependencyPlanPackage) : Bool :=
          (all.selected.find? (·.row.releaseId = item.releaseId)).any (·.row.channel = .dev)
        let plan : DependencyPlan := {
          channel := if packages.any isDev then .dev else .stable
          publicKeyUrl := publicOrigin ++ units "/repo/key.asc"
          publicKeyFingerprint := env.fingerprint.toLower
          packages, runtimeReleaseIds }
        if isDependencyPlan plan = false then .error (.error "generated dependency plan is invalid")
        else .ok ⟨some plan, packages.map (·.releaseId)⟩

/-! ## What a run of the resolution keeps -/

section

variable {input : PlanInput}

/-- A relation that the service knows is satisfied by one of some packages. -/
def Satisfied (input : PlanInput) (members : List PublishedPackage) (value : String) : Prop :=
  ∃ dependency, parseArchRelation value = some dependency ∧
    (dependency.name ∈ knownNames input.rows → ∃ item ∈ members, input.provides dependency item = true)

theorem Satisfied.mono {members more : List PublishedPackage} {value : String} (h : Satisfied input members value)
    (hsub : members <+: more) : Satisfied input more value := by
  obtain ⟨dependency, hparse, hknown⟩ := h
  refine ⟨dependency, hparse, fun hname => ?_⟩
  obtain ⟨item, hitem, hprovides⟩ := hknown hname
  exact ⟨item, hsub.subset hitem, hprovides⟩

/-- A conflict that `owner` declares names `other`. -/
def Declares (owner other : PublishedPackage) : Prop :=
  ∃ value ∈ owner.metadata.conflicts, ∃ relation, parseArchDependency value = some relation ∧ satisfies relation other = true

def Conflict (a b : PublishedPackage) : Prop := Declares a b ∨ Declares b a

theorem checkDeclared_ok {owner other : PublishedPackage} {message : String}
    (h : checkDeclared owner other message = .ok ()) : ¬Declares owner other := by
  rintro ⟨value, hvalue, relation, hparse, hsatisfies⟩
  have hcheck := forM_ok.mp h value hvalue
  rw [hparse] at hcheck
  simp only at hcheck
  rw [if_pos hsatisfies] at hcheck
  cases hcheck

theorem checkConflicts_ok {selected : List PublishedPackage} {candidate : PublishedPackage}
    (h : checkConflicts selected candidate = .ok ()) : ∀ existing ∈ selected, ¬Conflict existing candidate := by
  intro existing hexisting
  obtain ⟨_, hcandidate, hdeclared⟩ := bind_ok.mp (forM_ok.mp h existing hexisting)
  rintro (hconflict | hconflict)
  · exact checkDeclared_ok hdeclared hconflict
  · exact checkDeclared_ok hcandidate hconflict

/-- What holds of a selection at any time. -/
structure Fine (input : PlanInput) (s : Selection) : Prop where
  published : ∀ item ∈ s.selected, item ∈ publishedPackages input.rows
  names : (s.selected.map (·.row.name)).Nodup
  named : ∀ item ∈ s.selected, s.named item.row.name = some item
  entries : ∀ entry ∈ s.selectedByName, entry.2 ∈ s.selected
  bound : s.selected.length ≤ maxPackages
  apart : s.selected.Pairwise fun a b => ¬Conflict a b

/-- A step of the resolution: what was selected stays, and what came has its dependencies. -/
structure Grows (input : PlanInput) (s s' : Selection) : Prop where
  selected : s.selected <+: s'.selected
  closed : ∀ item ∈ s'.selected, item ∉ s.selected → ∀ value ∈ item.metadata.depends, Satisfied input s'.selected value

theorem Grows.refl (s : Selection) : Grows input s s := ⟨List.prefix_rfl, fun _ hitem hnot => absurd hitem hnot⟩

theorem Grows.trans {s t u : Selection} (h : Grows input s t) (h' : Grows input t u) : Grows input s u := by
  refine ⟨h.selected.trans h'.selected, fun item hitem hnot value hvalue => ?_⟩
  by_cases ht : item ∈ t.selected
  · exact (h.closed item ht hnot value hvalue).mono h'.selected
  · exact h'.closed item hitem ht value hvalue

/-- A step that satisfies a relation. -/
structure Resolves (input : PlanInput) (value : String) (s s' : Selection) : Prop extends Grows input s s' where
  fine : Fine input s'
  satisfied : Satisfied input s'.selected value

/-- Several relations one after the other, each of which is satisfied. -/
theorem foldlM_resolves {f : Selection → String → Except PlanThrow Selection}
    (hf : ∀ s s' value, Fine input s → f s value = .ok s' → Resolves input value s s') {values : List String}
    {s s' : Selection} (hs : Fine input s) (h : values.foldlM f s = .ok s') :
    Fine input s' ∧ Grows input s s' ∧ ∀ value ∈ values, Satisfied input s'.selected value := by
  induction values generalizing s with
  | nil =>
    cases h
    exact ⟨hs, .refl _, by simp⟩
  | cons value values ih =>
    rw [List.foldlM_cons] at h
    obtain ⟨t, ht, h⟩ := bind_ok.mp h
    -- what later steps add takes no earlier relation its provider
    have hstep := hf s t value hs ht
    obtain ⟨hfine, hrest, hvalues⟩ := ih hstep.fine h
    exact ⟨hfine, hstep.toGrows.trans hrest, List.forall_mem_cons.mpr ⟨hstep.satisfied.mono hrest.selected, hvalues⟩⟩

/-- Releases are apart by their ids. -/
theorem release_inj (hids : (input.rows.map (·.releaseId)).Nodup) {a b : PublishedPackage}
    (ha : a ∈ publishedPackages input.rows) (hb : b ∈ publishedPackages input.rows) (h : a.row.releaseId = b.row.releaseId) :
    a = b := by
  obtain ⟨row, hrow, ha⟩ := List.mem_filterMap.mp ha
  obtain ⟨row', hrow', hb⟩ := List.mem_filterMap.mp hb
  obtain ⟨m, hm, rfl⟩ := Option.map_eq_some_iff.mp ha
  obtain ⟨m', hm', rfl⟩ := Option.map_eq_some_iff.mp hb
  obtain rfl : row = row' := List.inj_on_of_nodup_map hids hrow hrow' h
  rw [Option.some.inj (hm.symm.trans hm')]

theorem add_fine {s : Selection} {candidate : PublishedPackage} (h : Fine input s)
    (hcandidate : candidate ∈ publishedPackages input.rows) (hname : s.named candidate.row.name = none)
    (hbound : s.selected.length < maxPackages) (hconflicts : ∀ existing ∈ s.selected, ¬Conflict existing candidate) :
    Fine input (s.add candidate) := by
  have hnew : ∀ item ∈ s.selected, item.row.name ≠ candidate.row.name := by
    intro item hitem hsame
    rw [← hsame, h.named item hitem] at hname
    cases hname
  refine ⟨?_, ?_, ?_, ?_, ?_, ?_⟩
  · intro item hitem
    rcases List.mem_append.mp hitem with hitem | hitem
    · exact h.published item hitem
    · rw [List.mem_singleton.mp hitem]
      exact hcandidate
  · rw [Selection.add, List.map_append, List.nodup_append]
    refine ⟨h.names, by simp, ?_⟩
    rintro _ hold _ hcandidateName rfl
    obtain ⟨item, hitem, hitemName⟩ := List.mem_map.mp hold
    simp only [List.map_cons, List.map_nil, List.mem_singleton] at hcandidateName
    exact hnew item hitem (hitemName.trans hcandidateName)
  · intro item hitem
    rw [Selection.named, Selection.add, List.find?_append, List.find?_filter]
    rcases List.mem_append.mp hitem with hitem | hitem
    · have hkeep : (fun entry : String × PublishedPackage =>
          decide (decide (entry.1 ≠ candidate.row.name) = true ∧ decide (entry.1 = item.row.name) = true)) =
          fun entry => decide (entry.1 = item.row.name) := by
        funext entry
        by_cases he : entry.1 = item.row.name <;> simp [he, hnew item hitem]
      have hfound := h.named item hitem
      rw [Selection.named] at hfound
      obtain ⟨entry, hentry, hvalue⟩ := Option.map_eq_some_iff.mp hfound
      rw [hkeep, hentry, Option.some_or, Option.map_some, hvalue]
    · rw [List.mem_singleton.mp hitem]
      have hgone : s.selectedByName.find? (fun entry =>
          decide (decide (entry.1 ≠ candidate.row.name) = true ∧ decide (entry.1 = candidate.row.name) = true)) = none := by
        rw [List.find?_eq_none]
        intro entry _
        simp
      rw [hgone]
      simp
  · intro entry hentry
    rcases List.mem_append.mp hentry with hentry | hentry
    · exact List.mem_append_left _ (h.entries entry (List.mem_filter.mp hentry).1)
    · rw [List.mem_singleton.mp hentry]
      simp [Selection.add]
  · rw [Selection.add, List.length_append, List.length_singleton]
    omega
  · rw [Selection.add, List.pairwise_append]
    exact ⟨h.apart, by simp, by simpa using hconflicts⟩

/-- `resolve` satisfies its relation, and keeps what holds of a selection. -/
theorem resolve_resolves (hids : (input.rows.map (·.releaseId)).Nodup) {fuel : Nat} {value owner : String}
    {s s' : Selection} (hs : Fine input s) (h : input.resolve fuel value owner s = .ok s') : Resolves input value s s' := by
  induction fuel generalizing value owner s s' with
  | zero => cases h
  | succ fuel ih =>
    rw [PlanInput.resolve] at h
    split at h
    · cases h
    · next dependency hparse =>
      split at h
      · next hunknown =>
        cases h
        refine ⟨.refl _, hs, dependency, hparse, fun hname => ?_⟩
        rw [List.contains_iff_mem.mpr hname] at hunknown
        cases hunknown
      · split at h
        · next hexisting =>
          cases h
          obtain ⟨item, hitem, hprovides⟩ := List.any_eq_true.mp hexisting
          exact ⟨.refl _, hs, dependency, hparse, fun _ => ⟨item, hitem, hprovides⟩⟩
        · next hnone =>
          split at h
          · cases h
          · next candidate hcandidate =>
            obtain ⟨hpublished, hprovides⟩ : candidate ∈ publishedPackages input.rows ∧ input.provides dependency candidate = true := by
              have hmem : candidate ∈ input.providers dependency := List.mem_of_head? hcandidate
              rw [PlanInput.providers, List.mem_mergeSort] at hmem
              exact List.mem_filter.mp hmem
            -- a selected candidate would have been the existing provider
            have hnot : candidate ∉ s.selected := fun hmem => hnone (List.any_eq_true.mpr ⟨candidate, hmem, hprovides⟩)
            split at h
            · cases h
            · next hsame =>
              split at h
              · next hhas =>
                obtain ⟨item, hitem, hid⟩ := List.any_eq_true.mp hhas
                have hsameRelease := release_inj hids (hs.published item hitem) hpublished (of_decide_eq_true hid)
                exact absurd (hsameRelease ▸ hitem) hnot
              · split at h
                · cases h
                · next hbound =>
                  obtain ⟨_, hconflicts, h⟩ := bind_ok.mp h
                  -- a package of this name would be another release, which the branch above has refused
                  have hname : s.named candidate.row.name = none := by
                    by_contra hsome
                    obtain ⟨item, hitem⟩ := Option.ne_none_iff_exists'.mp hsome
                    obtain ⟨entry, hentry, rfl⟩ := Option.map_eq_some_iff.mp hitem
                    have hselected := hs.entries entry (List.mem_of_find?_eq_some hentry)
                    have hid : entry.2.row.releaseId = candidate.row.releaseId := by simpa [hitem] using hsame
                    exact hnot (release_inj hids (hs.published _ hselected) hpublished hid ▸ hselected)
                  have hadd := add_fine hs hpublished hname (by omega) (checkConflicts_ok hconflicts)
                  obtain ⟨hfine, hgrows, hdepends⟩ := foldlM_resolves (fun s s' value => ih) hadd h
                  have hmem : candidate ∈ s'.selected := hgrows.selected.subset (by simp [Selection.add])
                  refine ⟨⟨?_, fun item hitem hitemNot => ?_⟩, hfine, dependency, hparse, fun _ => ⟨candidate, hmem, hprovides⟩⟩
                  · exact (List.prefix_append _ _).trans hgrows.selected
                  · by_cases hitemAdd : item ∈ (s.add candidate).selected
                    · rcases List.mem_append.mp hitemAdd with hold | hnew
                      · exact absurd hold hitemNot
                      · rw [List.mem_singleton.mp hnew]
                        exact hdepends
                    · exact hgrows.closed item hitem hitemAdd

end

/-! ## The end of the recursion -/

section

variable {input : PlanInput}

/-- What each step keeps, a run keeps. -/
theorem foldlM_keeps {P : Selection → Prop} {f : Selection → String → Except PlanThrow Selection}
    (hf : ∀ s s' value, P s → f s value = .ok s' → P s') {values : List String} {s s' : Selection} (hs : P s)
    (h : values.foldlM f s = .ok s') : P s' := by
  induction values generalizing s with
  | nil =>
    cases h
    exact hs
  | cons value values ih =>
    rw [List.foldlM_cons] at h
    obtain ⟨t, ht, h⟩ := bind_ok.mp h
    exact ih (hf s t value hs ht) h

/-- Holds so many packages, and no more than a plan may. -/
def Selection.Between (n : Nat) (s : Selection) : Prop := n ≤ s.selected.length ∧ s.selected.length ≤ maxPackages

theorem add_between {n : Nat} {s : Selection} (candidate : PublishedPackage) (hs : n ≤ s.selected.length)
    (hbound : ¬maxPackages ≤ s.selected.length) : (s.add candidate).Between (n + 1) := by
  rw [Selection.Between, Selection.add, List.length_append, List.length_singleton]
  omega

/-- A selection only grows, and within its bound. -/
theorem resolve_between {fuel n : Nat} {value owner : String} {s s' : Selection} (hs : s.Between n)
    (h : input.resolve fuel value owner s = .ok s') : s'.Between n := by
  induction fuel generalizing n value owner s s' with
  | zero => cases h
  | succ fuel ih =>
    rw [PlanInput.resolve] at h
    split at h
    · cases h
    · split at h
      · cases h
        exact hs
      · split at h
        · cases h
          exact hs
        · split at h
          · cases h
          · split at h
            · cases h
            · split at h
              · cases h
                exact hs
              · split at h
                · cases h
                · next hbound =>
                  obtain ⟨_, -, h⟩ := bind_ok.mp h
                  have hkept := foldlM_keeps (fun s s' value hs => ih hs) (add_between _ hs.1 hbound) h
                  exact ⟨(Nat.le_succ n).trans hkept.1, hkept.2⟩

/-- One after the other, where neither runs out of fuel. -/
theorem bind_ends {α β : Type} {x : Except PlanThrow α} {f : α → Except PlanThrow β} (hx : x ≠ .error .outOfFuel)
    (hf : ∀ a, x = .ok a → f a ≠ .error .outOfFuel) : (x >>= f) ≠ .error .outOfFuel := by
  cases x with
  | error e =>
    rintro h
    cases h
    exact hx rfl
  | ok a => exact hf a rfl

theorem guard_ends {α : Type} {c : Prop} [Decidable c] {message : String} {a : α} :
    (if c then Except.error (PlanThrow.error message) else .ok a) ≠ .error .outOfFuel := by
  split <;> simp

theorem foldlM_ends {P : Selection → Prop} {f : Selection → String → Except PlanThrow Selection}
    (hkeep : ∀ s s' value, P s → f s value = .ok s' → P s') (hf : ∀ s value, P s → f s value ≠ .error .outOfFuel)
    {values : List String} {s : Selection} (hs : P s) : values.foldlM f s ≠ .error .outOfFuel := by
  induction values generalizing s with
  | nil => simp [pure, Except.pure]
  | cons value values ih =>
    rw [List.foldlM_cons]
    exact bind_ends (hf s value hs) fun t ht => ih (hkeep s t value hs ht)

theorem forM_ends {α : Type} {f : α → Except PlanThrow Unit} (hf : ∀ x, f x ≠ .error .outOfFuel) (l : List α) :
    l.forM f ≠ .error .outOfFuel := by
  induction l with
  | nil => simp [pure, Except.pure]
  | cons x l ih =>
    change (f x >>= fun _ => l.forM f) ≠ _
    exact bind_ends (hf x) fun _ _ => ih

theorem checkDeclared_ends (owner other : PublishedPackage) (message : String) :
    checkDeclared owner other message ≠ .error .outOfFuel := by
  refine forM_ends (fun value => ?_) _
  split
  · simp
  · split <;> simp

theorem checkConflicts_ends (selected : List PublishedPackage) (candidate : PublishedPackage) :
    checkConflicts selected candidate ≠ .error .outOfFuel :=
  forM_ends (fun _ => bind_ends (checkDeclared_ends _ _ _) fun _ _ => checkDeclared_ends _ _ _) _

/-- Each level of the recursion has added a package, and none comes to be the 65th. -/
theorem resolve_ends {fuel n : Nat} {value owner : String} {s : Selection} (hfuel : maxPackages < fuel + n)
    (hs : s.Between n) : input.resolve fuel value owner s ≠ .error .outOfFuel := by
  induction fuel generalizing n value owner s with
  | zero =>
    have := hs.1
    have := hs.2
    omega
  | succ fuel ih =>
    rw [PlanInput.resolve]
    split
    · simp
    · split
      · simp
      · split
        · simp
        · split
          · simp
          · split
            · simp
            · split
              · simp
              · split
                · simp
                · next hbound =>
                  refine bind_ends (checkConflicts_ends _ _) fun _ _ => ?_
                  -- one package more, so one level of fuel less is enough
                  exact foldlM_ends (fun s s' value hs => resolve_between hs)
                    (fun s value hs => ih (by omega) hs) (add_between _ hs.1 hbound)

theorem resolveAll_ends (input : PlanInput) (values : List String) (owner : String) {s : Selection} (hs : s.Between 0) :
    input.resolveAll values owner s ≠ .error .outOfFuel :=
  foldlM_ends (fun _ _ _ hs => resolve_between hs) (fun _ _ hs => resolve_ends (Nat.lt_succ_self _) hs) hs

theorem resolveAll_between {values : List String} {owner : String} {s s' : Selection} (hs : s.Between 0)
    (h : input.resolveAll values owner s = .ok s') : s'.Between 0 :=
  foldlM_keeps (fun _ _ _ hs => resolve_between hs) hs h

end

/-! ## The references -/

theorem packageReference_releaseId {env : PlanEnv} {item : PublishedPackage} {reference : DependencyPlanPackage}
    (h : packageReference env item = .ok reference) : reference.releaseId = item.row.releaseId := by
  rw [packageReference] at h
  split at h
  · cases h
  · split at h
    · cases h
    · split at h
      · cases h
      · split at h
        · cases h
        · split at h
          · cases h
          · split at h
            · cases h
              rfl
            · cases h

theorem packageReference_ends (env : PlanEnv) (item : PublishedPackage) : packageReference env item ≠ .error .outOfFuel := by
  rw [packageReference]
  split
  · simp
  · split
    · simp
    · split
      · simp
      · split
        · simp
        · split
          · simp
          · split <;> simp

/-- A plan refers to what was selected, in its order. -/
theorem references_releaseIds {env : PlanEnv} {items : List PublishedPackage} {total : Int}
    {packages : List DependencyPlanPackage} (h : references env items total = .ok packages) :
    packages.map (·.releaseId) = items.map (·.row.releaseId) := by
  induction items generalizing total packages with
  | nil =>
    cases h
    rfl
  | cons item rest ih =>
    rw [references] at h
    split at h
    · cases h
    · split at h
      · cases h
      · obtain ⟨reference, hreference, h⟩ := bind_ok.mp h
        obtain ⟨others, hothers, h⟩ := bind_ok.mp h
        cases h
        rw [List.map_cons, List.map_cons, ih hothers, packageReference_releaseId hreference]

theorem references_ends (env : PlanEnv) (items : List PublishedPackage) (total : Int) :
    references env items total ≠ .error .outOfFuel := by
  induction items generalizing total with
  | nil => simp [references]
  | cons item rest ih =>
    rw [references]
    split
    · simp
    · split
      · simp
      · exact bind_ends (packageReference_ends env item) fun _ _ => bind_ends (ih _) fun _ _ => by simp

/-! ## What a plan holds -/

/-- What a plan says, against the packages that were selected for it: `runtime` those that the reviewed runtime
dependencies need, `members` all. -/
structure Sound (input : PlanInput) (members runtime : List PublishedPackage) : Prop where
  published : ∀ item ∈ members, item ∈ publishedPackages input.rows
  names : (members.map (·.row.name)).Nodup
  bound : members.length ≤ maxPackages
  apart : members.Pairwise fun a b => ¬Conflict a b
  depends : ∀ item ∈ members, ∀ value ∈ item.metadata.depends, Satisfied input members value
  reviewed : ∀ value ∈ input.makeDependencies, Satisfied input members value
  early : runtime <+: members
  runtimeDepends : ∀ item ∈ runtime, ∀ value ∈ item.metadata.depends, Satisfied input runtime value
  runtimeReviewed : ∀ value ∈ input.dependencies, Satisfied input runtime value

theorem fine_empty (input : PlanInput) : Fine input ⟨[], []⟩ := by
  constructor <;> simp

theorem resolveAll_sound {input : PlanInput} (hids : (input.rows.map (·.releaseId)).Nodup) {runtime all : Selection}
    (hruntime : input.resolveAll input.dependencies "reviewed runtime" ⟨[], []⟩ = .ok runtime)
    (hall : input.resolveAll input.makeDependencies "reviewed build" runtime = .ok all) :
    Sound input all.selected runtime.selected := by
  have hstep : ∀ owner s s' value, Fine input s → input.resolve planFuel value owner s = .ok s' → Resolves input value s s' :=
    fun _ _ _ _ => resolve_resolves hids
  obtain ⟨hfine, hgrows, hreviewed⟩ := foldlM_resolves (hstep _) (fine_empty input) hruntime
  obtain ⟨hfine', hgrows', hreviewed'⟩ := foldlM_resolves (hstep _) hfine hall
  exact {
    published := hfine'.published
    names := hfine'.names
    bound := hfine'.bound
    apart := hfine'.apart
    depends := fun item hitem => (hgrows.trans hgrows').closed item hitem (by simp)
    reviewed := hreviewed'
    early := hgrows'.selected
    runtimeDepends := fun item hitem => hgrows.closed item hitem (by simp)
    runtimeReviewed := hreviewed }

theorem sound_empty {input : PlanInput} (h : input.dependencies ++ input.makeDependencies = []) : Sound input [] [] := by
  obtain ⟨hdependencies, hmake⟩ := List.append_eq_nil_iff.mp h
  constructor <;> simp [hdependencies, hmake]

/-- A library and a program, each of which depends on the other. -/
def cycleRows : List PublishedRow :=
  let row (releaseId name depends : String) : PublishedRow := {
    releaseId, name, version := "1.0-1", architecture := .x86_64, channel := .stable
    artifactKey := some ("packages/x86_64/" ++ name ++ "-1.0-1-x86_64.pkg.tar.zst")
    signatureKey := some ("signatures/" ++ name), artifactSha256 := some "0123456789abcdef0123456789abcdef0123456789abcdef0123456789abcdef"
    artifactSize := some 1024, artifactFilename := some (name ++ "-1.0-1-x86_64.pkg.tar.zst")
    provenance := some (.obj [("packageMetadata", .obj [
      ("name", .str name), ("fullVersion", .str "1.0-1"), ("architecture", .str "x86_64"), ("installedSize", .num (.ofNat 1)),
      ("depends", .arr [.str depends]), ("provides", .arr []), ("conflicts", .arr []), ("replaces", .arr [])])])
    publishedAt := 0 }
  [row "r1" "tool" "libtool", row "r2" "libtool" "tool"]

end Omapkg.Server.Plan
