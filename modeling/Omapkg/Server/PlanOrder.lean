import Omapkg.Lib.MergeHead
import Omapkg.Server.DependencyPlan
/-!
# The order of the rows

The query of the published packages states no order, and a plan is to say the same
whatever order they come in. It does where each relation has a provider that comes
before every other one.
-/

namespace Omapkg.Server.Plan

open Utf Json Fallible
open Omapkg.Server.Arch (ArchDependency PackageMetadata parseArchRelation)

theorem foldlM_congr {m : Type → Type} [Monad m] {α β : Type} {f g : β → α → m β} {l : List α} {b : β}
    (h : ∀ b, ∀ a ∈ l, f b a = g b a) : l.foldlM f b = l.foldlM g b := by
  induction l generalizing b with
  | nil => rfl
  | cons a l ih =>
    rw [List.foldlM_cons, List.foldlM_cons, h b a List.mem_cons_self]
    exact bind_congr fun b => ih fun b x hx => h b x (List.mem_cons_of_mem a hx)

section

variable {input : PlanInput} {rows' : List PublishedRow}

/-- The providers of a relation, in the order of their rows. -/
def PlanInput.candidates (input : PlanInput) (dependency : ArchDependency) : List PublishedPackage :=
  (publishedPackages input.rows).filter (input.provides dependency)

/-- One package comes before each of the others. -/
def HasFirst (localeCompare : String → String → Int) (items : List PublishedPackage) : Prop :=
  ∃ first ∈ items, ∀ other ∈ items,
    other = first ∨ candidateOrder localeCompare first other ≤ 0 ∧ 0 < candidateOrder localeCompare other first

/-- The relations that a resolution may come to: those of the request, and what a provider of one depends on. -/
inductive PlanInput.Reaches (input : PlanInput) : String → Prop
  | asked {value : String} : value ∈ input.dependencies ++ input.makeDependencies → input.Reaches value
  | needed {value nested : String} {dependency : ArchDependency} {item : PublishedPackage} :
    input.Reaches value → parseArchRelation value = some dependency → item ∈ input.candidates dependency →
    nested ∈ item.metadata.depends → input.Reaches nested

/-- Where such a relation has providers, one of them is the first. -/
def PlanInput.Settled (input : PlanInput) : Prop :=
  ∀ value dependency, input.Reaches value → parseArchRelation value = some dependency →
    input.candidates dependency ≠ [] → HasFirst input.localeCompare (input.candidates dependency)

theorem publishedPackages_perm (h : input.rows.Perm rows') :
    (publishedPackages input.rows).Perm (publishedPackages rows') := h.filterMap _

theorem knownNames_perm (h : input.rows.Perm rows') (name : String) :
    (knownNames rows').contains name = (knownNames input.rows).contains name :=
  (((h.map _).append ((publishedPackages_perm h).flatMap_right _)).contains_eq).symm

/-- The first provider, wherever its row stands. -/
theorem providers_head {rows : List PublishedRow} {dependency : ArchDependency} {first : PublishedPackage}
    {input : PlanInput} (hmem : first ∈ input.candidates dependency)
    (hbefore : ∀ other ∈ input.candidates dependency, other = first ∨
      candidateOrder input.localeCompare first other ≤ 0 ∧ 0 < candidateOrder input.localeCompare other first)
    (hrows : input.rows.Perm rows) : ({ input with rows }.providers dependency).head? = some first := by
  have hperm : (input.candidates dependency).Perm ((publishedPackages rows).filter (input.provides dependency)) :=
    (publishedPackages_perm hrows).filter _
  refine MergeHead.head_mergeSort (hperm.subset hmem) fun other hother => ?_
  rcases hbefore other (hperm.symm.subset hother) with hsame | ⟨hle, hlt⟩
  · exact .inl hsame
  · exact .inr ⟨decide_eq_true hle, decide_eq_false (Int.not_le.mpr hlt)⟩

theorem providers_head_perm (h : input.rows.Perm rows') {dependency : ArchDependency}
    (hfirst : input.candidates dependency ≠ [] → HasFirst input.localeCompare (input.candidates dependency)) :
    ({ input with rows := rows' }.providers dependency).head? = (input.providers dependency).head? := by
  by_cases hnone : input.candidates dependency = []
  · have hperm : (input.candidates dependency).Perm ((publishedPackages rows').filter (input.provides dependency)) :=
      (publishedPackages_perm h).filter _
    rw [hnone] at hperm
    change (((publishedPackages rows').filter (input.provides dependency)).mergeSort _).head? =
      ((input.candidates dependency).mergeSort _).head?
    rw [hnone, hperm.nil_eq]
  · obtain ⟨first, hmem, hbefore⟩ := hfirst hnone
    rw [providers_head hmem hbefore h]
    exact (providers_head hmem hbefore (.refl _)).symm

theorem resolve_perm (h : input.rows.Perm rows') (hsettled : input.Settled) {fuel : Nat} {value owner : String}
    {s : Selection} (hvalue : input.Reaches value) :
    { input with rows := rows' }.resolve fuel value owner s = input.resolve fuel value owner s := by
  induction fuel generalizing value owner s with
  | zero => rfl
  | succ fuel ih =>
    rw [PlanInput.resolve, PlanInput.resolve]
    cases hparse : parseArchRelation value with
    | none => rfl
    | some dependency =>
      simp only [knownNames_perm h, providers_head_perm h (hsettled value dependency hvalue hparse)]
      cases hhead : (input.providers dependency).head? with
      | none => rfl
      | some candidate =>
        have hcandidate : candidate ∈ input.candidates dependency := by
          have hmem := List.mem_of_head? hhead
          rw [PlanInput.providers, List.mem_mergeSort] at hmem
          exact hmem
        -- what the candidate depends on may come up in turn
        have hrun : ∀ s, candidate.metadata.depends.foldlM
            (fun s nested => { input with rows := rows' }.resolve fuel nested candidate.row.name s) s =
            candidate.metadata.depends.foldlM (fun s nested => input.resolve fuel nested candidate.row.name s) s :=
          fun s => foldlM_congr fun s nested hnested => ih (.needed hvalue hparse hcandidate hnested)
        simp only [hrun]
        rfl

theorem resolveAll_perm (h : input.rows.Perm rows') (hsettled : input.Settled) {values : List String} {owner : String}
    {s : Selection} (hvalues : ∀ value ∈ values, input.Reaches value) :
    { input with rows := rows' }.resolveAll values owner s = input.resolveAll values owner s :=
  foldlM_congr fun _ _ hvalue => resolve_perm h hsettled (hvalues _ hvalue)

/-- Three releases of one package. -/
def toolRow (releaseId version : String) (publishedAt : Int) : PublishedRow where
  releaseId
  name := "tool"
  version
  architecture := .x86_64
  channel := .stable
  artifactKey := some ("packages/x86_64/tool-" ++ version ++ "-x86_64.pkg.tar.zst")
  signatureKey := some "signatures/tool"
  artifactSha256 := some "0123456789abcdef0123456789abcdef0123456789abcdef0123456789abcdef"
  artifactSize := some 1024
  artifactFilename := some ("tool-" ++ version ++ "-x86_64.pkg.tar.zst")
  provenance := some (.obj [("packageMetadata", .obj [
    ("name", .str "tool"), ("fullVersion", .str version), ("architecture", .str "x86_64"), ("installedSize", .num (.ofNat 1)),
    ("depends", .arr []), ("provides", .arr []), ("conflicts", .arr []), ("replaces", .arr [])])])
  publishedAt

def toolMetadata (fullVersion : String) : PackageMetadata := ⟨"tool", fullVersion, .x86_64, 1, [], [], [], []⟩

def toolRelease (releaseId version : String) (publishedAt : Int) : PublishedPackage :=
  ⟨toolRow releaseId version publishedAt, toolMetadata version⟩

def toolInput (rows : List PublishedRow) : PlanInput := ⟨rows, .x86_64, ["tool"], [], fun _ _ => 0⟩

def toolEnv : PlanEnv where
  head _ := some ⟨1024, none⟩
  signature _ := some ⟨1, [0]⟩
  fingerprint := "0123456789abcdef0123456789abcdef01234567"
  origin := some (units "https://packages.example")
  sha256 _ := "0123456789abcdef0123456789abcdef0123456789abcdef0123456789abcdef"

/-- The first provider of the one relation of a request is what its plan holds. -/
theorem resolveAll_tool {rows : List PublishedRow} {first : PublishedPackage}
    (hknown : (knownNames rows).contains "tool" = true)
    (hhead : ((toolInput rows).providers ⟨"tool", none, none⟩).head? = some first) (hdepends : first.metadata.depends = []) :
    (toolInput rows).resolveAll ["tool"] "reviewed runtime" ⟨[], []⟩ = .ok ⟨[first], [(first.row.name, first)]⟩ := by
  have hparse : parseArchRelation "tool" = some ⟨"tool", none, none⟩ := by decide
  have hrun : (toolInput rows).resolve planFuel "tool" "reviewed runtime" ⟨[], []⟩ =
      .ok ⟨[first], [(first.row.name, first)]⟩ := by
    rw [planFuel, PlanInput.resolve, hparse]
    dsimp only
    rw [if_neg (by simpa [toolInput] using hknown), hhead]
    simp [Selection.named, Selection.has, Selection.add, maxPackages, checkConflicts, hdepends, pure, Except.pure, bind,
      Except.bind]
  rw [PlanInput.resolveAll, List.foldlM_cons, hrun]
  rfl

end

end Omapkg.Server.Plan
