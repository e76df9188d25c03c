import Omapkg.Server.CohortScope
/-!
# Which chunks a scope upload takes

Members whose recipes and policies are current are kept as they are sent, and a
chunk follows the chunks before it just when its names are above theirs. What an
upload holds after each chunk is what its seal looks for.
-/

namespace Omapkg.Server.Scope

open Utf Json Fallible Arch
open Cohort (isIdentifier)
open Dependency (Actor humanMaintainer)
open Rebuild (UnitsLE)

/-! ## What the catalog takes -/

def storedRecipe (c : Catalog) : Option String → Option (Option MemberRecipe)
  | none => some none
  | some id => do
    let revision ← c.revisions id
    let fullVersion ← revision.fullVersion.toOption
    some (some ⟨id, revision.manifestSha256, fullVersion, revision.requestId⟩)

/-- What is kept of a member that the catalog takes. -/
def storedMember (c : Catalog) (m : MemberInput) : Option CohortMember := do
  let record ← c.packages m.pkgbase
  let policy ← (c.policy record.manifestJson).toOption
  let recipe ← storedRecipe c m.recipeRevisionId
  some ⟨m.pkgbase, record.revision, record.manifestSha256, policy, recipe, m.cause, m.reason⟩

def storedMembers (c : Catalog) (input : List MemberInput) : List CohortMember :=
  (input.insertionSort byName).filterMap (storedMember c)

/-- A member of a complete preview. -/
structure Mapped (c : Catalog) (m : MemberInput) (record : CatalogRecord) (policy : Policy) (id : String) (revision : RevisionRow)
    (request : RequestRow) : Prop where
  named : isPackageName m.pkgbase.toList = true
  found : c.packages m.pkgbase = some record
  parsed : c.policy record.manifestJson = .ok policy
  number : m.catalogRevision = record.revision
  bound : m.recipeRevisionId = some id
  revised : c.revisions id = some revision
  requested : c.requests revision.requestId = some request
  latest : c.latest revision.requestId = id
  name : request.name = m.pkgbase
  upstream : request.upstreamUrl = policy.upstreamUrl
  source : request.sourceKind = policy.sourceKind
  area : request.area = policy.ownerArea
  reason : reasonText m.reason = if m.reason.length ≤ 2000 then some m.reason else none

/-- What an append asks of a member that a preview does not. -/
def Takes (c : Catalog) (actor : Option Actor) (lane : Lane) (m : MemberInput) : Prop :=
  m.reason.length ≤ 2000 ∧
    ∀ record policy id revision, c.packages m.pkgbase = some record → c.policy record.manifestJson = .ok policy →
      m.recipeRevisionId = some id → c.revisions id = some revision →
      isIdentifier id = true ∧ c.sha256 record.manifestJson = record.manifestSha256 ∧
        (∃ reviewer, humanMaintainer actor policy.ownerArea = .ok reviewer) ∧ (lane = .opr → policy.lane = .opr) ∧
        Rebuild.sorted (revision.architectures.map Architecture.text).eraseDups = policy.architectures.map Architecture.text ∧
        ∃ version, revision.fullVersion = .ok version

section
variable {c : Catalog} {actor : Option Actor} {lane : Lane} {m : MemberInput} {record : CatalogRecord} {policy : Policy} {id : String}
  {revision : RevisionRow} {request : RequestRow}

theorem Mapped.takes_iff (h : Mapped c m record policy id revision request) :
    Takes c actor lane m ↔ m.reason.length ≤ 2000 ∧ isIdentifier id = true ∧
      c.sha256 record.manifestJson = record.manifestSha256 ∧ (∃ reviewer, humanMaintainer actor policy.ownerArea = .ok reviewer) ∧
      (lane = .opr → policy.lane = .opr) ∧
      Rebuild.sorted (revision.architectures.map Architecture.text).eraseDups = policy.architectures.map Architecture.text ∧
      ∃ version, revision.fullVersion = .ok version := by
  constructor
  · rintro ⟨hlength, hrest⟩
    exact ⟨hlength, hrest record policy id revision h.found h.parsed h.bound h.revised⟩
  · rintro ⟨hlength, hrest⟩
    refine ⟨hlength, fun record' policy' id' revision' hrecord hpolicy hid hrevision => ?_⟩
    obtain rfl : record = record' := Option.some.inj (h.found.symm.trans hrecord)
    obtain rfl : policy = policy' := Except.ok.inj (h.parsed.symm.trans hpolicy)
    obtain rfl : id = id' := Option.some.inj (h.bound.symm.trans hid)
    obtain rfl : revision = revision' := Option.some.inj (h.revised.symm.trans hrevision)
    exact hrest

theorem Mapped.stored (h : Mapped c m record policy id revision request) :
    storedMember c m = revision.fullVersion.toOption.map fun version =>
      ⟨m.pkgbase, record.revision, record.manifestSha256, policy,
        some ⟨id, revision.manifestSha256, version, revision.requestId⟩, m.cause, m.reason⟩ := by
  simp only [storedMember, storedRecipe, h.found, h.parsed, h.bound, h.revised, Option.bind_eq_bind, Option.bind_some, Except.toOption]
  cases revision.fullVersion <;> rfl

theorem Mapped.input_ok (h : Mapped c m record policy id revision request) (m' : MemberInput) :
    memberInput m = .ok m' ↔ (m.reason.length ≤ 2000 ∧ isIdentifier id = true) ∧ some m = some m' := by
  have hnumber : 1 ≤ m.catalogRevision := h.number ▸ record.numbered
  rw [memberInput, h.reason]
  by_cases hlength : m.reason.length ≤ 2000
  · rw [if_pos hlength]
    dsimp only
    by_cases hid : isIdentifier id = true
    · rw [if_pos ⟨h.named, hnumber, by rw [h.bound]; exact hid⟩]
      simp [hlength, hid]
    · rw [if_neg (by simp [h.bound, hid])]
      simp [hid, reject]
  · simp [hlength, reject]

theorem Mapped.recipe_ok (h : Mapped c m record policy id revision request) (recipe : MemberRecipe) :
    memberRecipe c m.pkgbase policy id = .ok recipe ↔
      Rebuild.sorted (revision.architectures.map Architecture.text).eraseDups = policy.architectures.map Architecture.text ∧
        ∃ version, revision.fullVersion = .ok version ∧ ⟨id, revision.manifestSha256, version, revision.requestId⟩ = recipe := by
  have hrecipe : c.recipe id = some (revision, request) := by simp [Catalog.recipe, h.revised, h.requested]
  rw [memberRecipe, hrecipe]
  dsimp only
  rw [if_neg (by simp [h.latest, h.name, h.upstream, h.source, h.area])]
  unfold reject
  rw [guard_ok, not_not, bind_ok]
  simp only [pure, Except.pure, Except.ok.injEq]

theorem Mapped.member_ok (h : Mapped c m record policy id revision request)
    (hfirst : m.reason.length ≤ 2000 ∧ isIdentifier id = true) (x : CohortMember) :
    cohortMember c actor lane m = .ok x ↔ Takes c actor lane m ∧ storedMember c m = some x := by
  rw [cohortMember, h.found, h.takes_iff, h.stored]
  dsimp only
  constructor
  · intro hx
    obtain ⟨policy', hpolicy, hx⟩ := bind_ok.mp (guard_ok.mp hx).2
    obtain rfl : policy = policy' := Except.ok.inj (h.parsed.symm.trans hpolicy)
    obtain ⟨hdigest, hx⟩ := guard_ok.mp hx
    obtain ⟨reviewer, hreviewer, hx⟩ := bind_ok.mp hx
    obtain ⟨hlane, hx⟩ := guard_ok.mp hx
    rw [h.bound] at hx
    obtain ⟨recipe, hrecipe, hx⟩ := bind_ok.mp hx
    cases hr : memberRecipe c m.pkgbase policy id with
    | error e =>
      rw [hr] at hrecipe
      cases hrecipe
    | ok recipe' =>
      rw [hr] at hrecipe
      cases hrecipe
      obtain ⟨hsorted, version, hversion, rfl⟩ := (h.recipe_ok recipe').mp hr
      cases hx
      exact ⟨⟨hfirst.1, hfirst.2, not_not.mp hdigest, ⟨reviewer, hreviewer⟩, by simpa using hlane, hsorted, version, hversion⟩,
        by rw [hversion]; rfl⟩
  · rintro ⟨⟨-, -, hdigest, ⟨reviewer, hreviewer⟩, hlane, hsorted, version, hversion⟩, hx⟩
    rw [hversion] at hx
    cases hx
    have hrecipe := (h.recipe_ok _).mpr ⟨hsorted, version, hversion, rfl⟩
    have hsystem : ¬(lane = .opr ∧ policy.lane ≠ .opr) := fun hboth => hboth.2 (hlane hboth.1)
    simp [h.number, h.parsed, hdigest, hreviewer, h.bound, hrecipe, hsystem, bind, Except.bind, pure, Except.pure]

/-- A chunk's manifest has a member for each that was sent, when all are taken. -/
theorem cohortManifest_ok {input : List MemberInput} {members : List CohortMember} {reviewer : Actor}
    (hactor : humanMaintainer actor "" = .ok reviewer)
    (hmapped : ∀ m ∈ input, ∃ record policy id revision request, Mapped c m record policy id revision request)
    (hnodup : (input.map (·.pkgbase)).Nodup) :
    cohortManifest c actor lane input = .ok members ↔ (∀ m ∈ input, Takes c actor lane m) ∧ members = storedMembers c input := by
  let Sent (m : MemberInput) : Prop := m.reason.length ≤ 2000 ∧ m.recipeRevisionId.all isIdentifier = true
  have hsent : ∀ m ∈ input, ∀ y, memberInput m = .ok y ↔ Sent m ∧ some m = some y := by
    intro m hm y
    obtain ⟨record, policy, id, revision, request, h⟩ := hmapped m hm
    rw [h.input_ok]
    simp only [Sent, h.bound, Option.all_some]
  have hsort : ∀ m, m ∈ input.insertionSort byName ↔ m ∈ input := fun m => (List.perm_insertionSort byName input).mem_iff
  have hmember : (∀ m ∈ input, Sent m) → ∀ m ∈ input.insertionSort byName, ∀ x,
      cohortMember c actor lane m = .ok x ↔ Takes c actor lane m ∧ storedMember c m = some x := by
    intro hall m hm x
    obtain ⟨record, policy, id, revision, request, h⟩ := hmapped m ((hsort m).mp hm)
    have hs := hall m ((hsort m).mp hm)
    simp only [Sent, h.bound, Option.all_some] at hs
    exact h.member_ok hs x
  have hstored : ∀ m ∈ input.insertionSort byName, Takes c actor lane m → ∃ x, storedMember c m = some x := by
    intro m hm ht
    obtain ⟨record, policy, id, revision, request, h⟩ := hmapped m ((hsort m).mp hm)
    obtain ⟨-, -, -, -, -, -, version, hversion⟩ := h.takes_iff.mp ht
    rw [h.stored, hversion]
    exact ⟨_, rfl⟩
  rw [cohortManifest, hactor]
  constructor
  · intro hok
    obtain ⟨-, -, hok⟩ := bind_ok.mp hok
    obtain ⟨requested, hrequested, hok⟩ := bind_ok.mp hok
    obtain ⟨hall, rfl⟩ := (mapM_filterMap hsent fun m _ _ => ⟨m, rfl⟩).mp hrequested
    rw [List.filterMap_some] at hok
    obtain ⟨htakes, rfl⟩ := (mapM_filterMap (hmember hall) hstored).mp (guard_ok.mp hok).2
    exact ⟨fun m hm => htakes m ((hsort m).mpr hm), rfl⟩
  · rintro ⟨htakes, rfl⟩
    have hall : ∀ m ∈ input, Sent m := by
      intro m hm
      obtain ⟨record, policy, id, revision, request, h⟩ := hmapped m hm
      obtain ⟨hlength, hid, -⟩ := h.takes_iff.mp (htakes m hm)
      simp only [Sent, h.bound, Option.all_some]
      exact ⟨hlength, hid⟩
    refine bind_ok.mpr ⟨reviewer, rfl, bind_ok.mpr ⟨input, ?_, guard_ok.mpr ⟨not_not.mpr hnodup, ?_⟩⟩⟩
    · exact (mapM_filterMap hsent fun m _ _ => ⟨m, rfl⟩).mpr ⟨hall, List.filterMap_some.symm⟩
    · exact (mapM_filterMap (hmember hall) hstored).mpr ⟨fun m hm => htakes m ((hsort m).mp hm), rfl⟩

/-! ## Names of a chunk -/

def Named (input : List MemberInput) : Prop := ∀ m ∈ input, isPackageName m.pkgbase.toList = true

theorem storedMember_pkgbase {x : CohortMember} (h : storedMember c m = some x) : x.pkgbase = m.pkgbase := by
  simp only [storedMember, Option.bind_eq_bind, Option.bind_eq_some_iff, Option.some.injEq] at h
  obtain ⟨record, -, policy, -, recipe, -, rfl⟩ := h
  rfl

theorem storedMembers_names {input : List MemberInput} (h : ∀ m ∈ input, ∃ x, storedMember c m = some x) :
    (storedMembers c input).map (·.pkgbase) = (input.insertionSort byName).map (·.pkgbase) := by
  have hall : ∀ m ∈ input.insertionSort byName, ∃ x, storedMember c m = some x := fun m hm =>
    h m ((List.perm_insertionSort byName input).mem_iff.mp hm)
  rw [storedMembers]
  generalize input.insertionSort byName = sent at hall ⊢
  induction sent with
  | nil => rfl
  | cons m ms ih =>
    obtain ⟨x, hx⟩ := hall m List.mem_cons_self
    rw [List.filterMap_cons_some hx, List.map_cons, List.map_cons, storedMember_pkgbase hx,
      ih fun m' hm' => hall m' (List.mem_cons_of_mem _ hm')]

theorem byName_pairwise (input : List MemberInput) :
    ((input.insertionSort byName).map (·.pkgbase)).Pairwise UnitsLE := by
  have htotal : Std.Total byName := ⟨fun a b => le_total (α := List Nat) _ _⟩
  have htrans : IsTrans MemberInput byName := ⟨fun a b c => le_trans (α := List Nat)⟩
  exact List.pairwise_map.mpr (List.pairwise_insertionSort byName input)

/-- The first and the last of names in order bound them. -/
theorem ends_of_pairwise {names : List String} (h : names.Pairwise UnitsLE) (hne : names ≠ []) :
    (names.head?.getD "" ∈ names ∧ ∀ y ∈ names, UnitsLE (names.head?.getD "") y) ∧
      names.getLast?.getD "" ∈ names ∧ ∀ y ∈ names, UnitsLE y (names.getLast?.getD "") := by
  have hrefl : ∀ s : String, UnitsLE s s := fun s => le_refl (α := List Nat) _
  constructor
  · obtain ⟨first, rest, rfl⟩ := List.exists_cons_of_ne_nil hne
    refine ⟨List.mem_cons_self, fun y hy => ?_⟩
    rcases List.mem_cons.mp hy with rfl | hy
    · exact hrefl y
    · exact (List.pairwise_cons.mp h).1 y hy
  · obtain ⟨front, last, rfl⟩ : ∃ front last, names = front ++ [last] :=
      ⟨names.dropLast, names.getLast hne, (List.dropLast_append_getLast hne).symm⟩
    rw [List.getLast?_concat, Option.getD_some]
    refine ⟨by simp, fun y hy => ?_⟩
    rcases List.mem_append.mp hy with hy | hy
    · exact (List.pairwise_append.mp h).2.2 y hy last List.mem_cons_self
    · rw [List.mem_singleton.mp hy]
      exact hrefl last

/-- No name is before the empty one. -/
theorem not_unitsLE_empty {s : String} (h : isPackageName s.toList = true) : ¬UnitsLE s "" := by
  intro hle
  have hnil : s = "" := hle.antisymm (show ([] : List Nat) ≤ _ from le_of_not_gt (List.not_lt_nil _))
  subst hnil
  exact absurd h (by decide)

/-! ## Appends -/

/-- An upload after the chunks `sent`. -/
structure Holds (c : Catalog) (lane : Lane) (expected : Nat) (createdBy : String) (sent : List (List MemberInput)) (u : ScopeUpload) :
    Prop where
  lane : u.lane = lane
  expected : u.expectedCount = expected
  createdBy : u.createdBy = createdBy
  unsealed : u.sealedRevision = none
  next : u.nextChunk = sent.length
  count : u.memberCount = sent.flatten.length
  walk : u.chunks.foldlM walkChunk (0, 0, "") = .ok (u.nextChunk, u.memberCount, u.lastPkgbase)
  length : u.chunks.length = sent.length
  indexed : ∀ chunk ∈ u.chunks, chunk.index < sent.length
  entries : (u.entries.map (·.member.pkgbase)).Perm (sent.flatten.map (·.pkgbase))
  ordinals : u.entries.map (·.ordinal) = List.range u.memberCount
  requests : ∀ e ∈ u.entries, ∀ id, e.requestId = some id →
    ∃ request, c.requests id = some request ∧ request.name = e.member.pkgbase
  above : ∀ m ∈ sent.flatten, UnitsLE m.pkgbase u.lastPkgbase
  last : u.lastPkgbase = "" ∨ ∃ m ∈ sent.flatten, m.pkgbase = u.lastPkgbase

theorem holds_fresh (c : Catalog) (lane : Lane) (revision : Option Nat) (base : Option String) (expected : Nat) (createdBy : String) :
    Holds c lane expected createdBy [] (ScopeUpload.fresh lane revision base expected createdBy) where
  lane := rfl
  expected := rfl
  createdBy := rfl
  unsealed := rfl
  next := rfl
  count := rfl
  walk := rfl
  length := rfl
  indexed := fun _ h => absurd h List.not_mem_nil
  entries := .nil
  ordinals := rfl
  requests := fun _ h => absurd h List.not_mem_nil
  above := fun _ h => absurd h List.not_mem_nil
  last := .inl rfl

/-- The names of the chunks sent before are below those of a chunk. -/
def Above (sent input : List MemberInput) : Prop := ∀ x ∈ sent, ∀ y ∈ input, ¬UnitsLE y.pkgbase x.pkgbase

theorem Holds.above_iff {expected : Nat} {createdBy : String} {sent : List (List MemberInput)} {u : ScopeUpload}
    (hu : Holds c lane expected createdBy sent u) {input : List MemberInput} (hnamed : Named input)
    {first : String} (hfirst : first ∈ input.map (·.pkgbase)) (hbound : ∀ y ∈ input.map (·.pkgbase), UnitsLE first y) :
    ¬UnitsLE first u.lastPkgbase ↔ Above sent.flatten input := by
  have htrans : ∀ {a b d : String}, UnitsLE a b → UnitsLE b d → UnitsLE a d := fun hab hbd => le_trans (α := List Nat) hab hbd
  constructor
  · intro h x hx y hy hle
    exact h (htrans (hbound _ (List.mem_map_of_mem hy)) (htrans hle (hu.above x hx)))
  · intro h hle
    obtain ⟨m, hm, rfl⟩ := List.mem_map.mp hfirst
    rcases hu.last with hlast | ⟨x, hx, hlast⟩
    · rw [hlast] at hle
      exact not_unitsLE_empty (hnamed m hm) hle
    · rw [← hlast] at hle
      exact h x hx m hm hle

theorem Holds.unique {expected : Nat} {createdBy : String} {sent : List (List MemberInput)} {u : ScopeUpload}
    (hu : Holds c lane expected createdBy sent u) (hnodup : (sent.flatten.map (·.pkgbase)).Nodup) : EntriesUnique u.entries := by
  have hnames : (u.entries.map (·.member.pkgbase)).Nodup := hu.entries.nodup_iff.mpr hnodup
  refine ⟨hnames, hu.ordinals ▸ List.nodup_range, List.pairwise_filterMap.mpr ?_⟩
  refine (List.pairwise_map.mp hnames).imp_of_mem fun {e e'} he he' hne id hid id' hid' heq => ?_
  -- one request has one name
  obtain ⟨request, hrequest, hname⟩ := hu.requests e he id hid
  obtain ⟨request', hrequest', hname'⟩ := hu.requests e' he' id' hid'
  rw [heq, hrequest', Option.some.injEq] at hrequest
  exact hne (by rw [← hname, ← hname', hrequest])

/-- What an append of the catalog's members makes of an upload. -/
def nextUpload (c : Catalog) (u : ScopeUpload) (index : Nat) (input : List MemberInput) : ScopeUpload :=
  let members := storedMembers c input
  appendBatch u index ((members.head?.map (·.pkgbase)).getD "") ((members.getLast?.map (·.pkgbase)).getD "") members
    (membersJson members) (c.sha256 (membersJson members))

def AllMapped (c : Catalog) (input : List MemberInput) : Prop :=
  ∀ m ∈ input, ∃ record policy id revision request, Mapped c m record policy id revision request

theorem stored_ends {input : List MemberInput} (hne : input ≠ []) (hstored : ∀ m ∈ input, ∃ x, storedMember c m = some x) :
    (((storedMembers c input).head?.map (·.pkgbase)).getD "" ∈ input.map (·.pkgbase) ∧
        ∀ y ∈ input.map (·.pkgbase), UnitsLE (((storedMembers c input).head?.map (·.pkgbase)).getD "") y) ∧
      ((storedMembers c input).getLast?.map (·.pkgbase)).getD "" ∈ input.map (·.pkgbase) ∧
        ∀ y ∈ input.map (·.pkgbase), UnitsLE y (((storedMembers c input).getLast?.map (·.pkgbase)).getD "") := by
  have hperm : ((input.insertionSort byName).map (·.pkgbase)).Perm (input.map (·.pkgbase)) :=
    (List.perm_insertionSort byName input).map _
  have hnames : (input.insertionSort byName).map (·.pkgbase) ≠ [] := fun hnil =>
    hne (List.map_eq_nil_iff.mp (List.perm_nil.mp (hnil ▸ hperm).symm))
  rw [← List.head?_map, ← List.getLast?_map, storedMembers_names hstored]
  obtain ⟨⟨hfirst, hbelow⟩, hlast, habove⟩ := ends_of_pairwise (byName_pairwise input) hnames
  exact ⟨⟨hperm.mem_iff.mp hfirst, fun y hy => hbelow y (hperm.mem_iff.mpr hy)⟩, hperm.mem_iff.mp hlast,
    fun y hy => habove y (hperm.mem_iff.mpr hy)⟩

theorem storedMember_request (hmapped : AllMapped c input) {m : MemberInput} (hm : m ∈ input) {x : CohortMember}
    (hx : storedMember c m = some x) {recipe : MemberRecipe} (hrecipe : x.recipe = some recipe) :
    ∃ request, c.requests recipe.requestId = some request ∧ request.name = x.pkgbase := by
  obtain ⟨record, policy, id, revision, request, h⟩ := hmapped m hm
  rw [h.stored, Option.map_eq_some_iff] at hx
  obtain ⟨version, -, rfl⟩ := hx
  cases hrecipe
  exact ⟨request, h.requested, h.name⟩

theorem AllMapped.named {input : List MemberInput} (h : AllMapped c input) : Named input := fun m hm => by
  obtain ⟨_, _, _, _, _, h⟩ := h m hm
  exact h.named

/-- An append keeps what holds of an upload. -/
theorem Holds.append {expected : Nat} {createdBy : String} {sent : List (List MemberInput)} {u : ScopeUpload}
    (hu : Holds c lane expected createdBy sent u) {input : List MemberInput} (hne : input ≠ []) (hmapped : AllMapped c input)
    (hstored : ∀ m ∈ input, ∃ x, storedMember c m = some x) (habove : Above sent.flatten input) :
    Holds c lane expected createdBy (sent ++ [input]) (nextUpload c u sent.length input) := by
  obtain ⟨⟨hfirst, hbelow⟩, hlast, hend⟩ := stored_ends hne hstored
  have hnames := storedMembers_names hstored
  have hperm : ((input.insertionSort byName).map (·.pkgbase)).Perm (input.map (·.pkgbase)) :=
    (List.perm_insertionSort byName input).map _
  have hlength : (storedMembers c input).length = input.length := by
    have h := congrArg List.length hnames
    simpa using h
  have hflatten : (sent ++ [input]).flatten = sent.flatten ++ input := by simp
  refine ⟨hu.lane, hu.expected, hu.createdBy, hu.unsealed, ?_, ?_, ?_, ?_, ?_, ?_, ?_, ?_, ?_, ?_⟩
  · simp [nextUpload, appendBatch, hu.next]
  · simp [nextUpload, appendBatch, hu.count, hlength]
  · rw [nextUpload, appendBatch, List.foldlM_append, hu.walk]
    have hgo : ¬(sent.length ≠ u.nextChunk ∨ u.memberCount ≠ u.memberCount ∨
        UnitsLE (((storedMembers c input).head?.map (·.pkgbase)).getD "") u.lastPkgbase) := by
      rintro (h | h | h)
      · exact h hu.next.symm
      · exact h rfl
      · exact (hu.above_iff hmapped.named hfirst hbelow).mpr habove h
    simp only [List.foldlM_cons, List.foldlM_nil, walkChunk, bind, Except.bind, if_neg hgo, pure, Except.pure]
  · simp [nextUpload, appendBatch, hu.length]
  · intro chunk hchunk
    rw [List.length_append, List.length_singleton]
    rcases List.mem_append.mp hchunk with hchunk | hchunk
    · exact Nat.lt_succ_of_lt (hu.indexed chunk hchunk)
    · rw [List.mem_singleton.mp hchunk]
      exact Nat.lt_succ_self _
  · rw [hflatten, List.map_append]
    have hnew : ((storedMembers c input).mapIdx fun key member => (⟨sent.length, u.memberCount + key, member⟩ : EntryRow)).map
        (·.member.pkgbase) = (storedMembers c input).map (·.pkgbase) :=
      List.ext_getElem (by simp) fun i _ _ => by simp
    rw [nextUpload, appendBatch, List.map_append, hnew, hnames]
    exact hu.entries.append hperm
  · have hnew : ((storedMembers c input).mapIdx fun key member => (⟨sent.length, u.memberCount + key, member⟩ : EntryRow)).map
        (·.ordinal) = (List.range (storedMembers c input).length).map (u.memberCount + ·) :=
      List.ext_getElem (by simp) fun i _ _ => by simp
    rw [nextUpload, appendBatch, List.map_append, hnew, hu.ordinals, List.range_add]
  · intro e he id hid
    rcases List.mem_append.mp he with he | he
    · exact hu.requests e he id hid
    · obtain ⟨key, hkey, rfl⟩ := List.mem_mapIdx.mp he
      obtain ⟨recipe, hrecipe, rfl⟩ := Option.map_eq_some_iff.mp hid
      obtain ⟨m, hm, hx⟩ := List.mem_filterMap.mp (List.getElem_mem hkey)
      exact storedMember_request hmapped ((List.perm_insertionSort byName input).mem_iff.mp hm) hx hrecipe
  · intro m hm
    rw [hflatten] at hm
    obtain ⟨first, hf, heq⟩ := List.mem_map.mp hlast
    rcases List.mem_append.mp hm with hm | hm
    · refine le_of_not_ge (α := List Nat) fun hle => habove m hm first hf ?_
      rw [heq]
      exact hle
    · exact hend _ (List.mem_map_of_mem hm)
  · obtain ⟨m, hm, heq⟩ := List.mem_map.mp hlast
    exact .inr ⟨m, by rw [hflatten]; exact List.mem_append_right _ hm, heq⟩

/-- What an append asks of a chunk, after the members `before`. -/
def Accepted (c : Catalog) (actor : Option Actor) (lane : Lane) (before input : List MemberInput) : Prop :=
  (∀ m ∈ input, Takes c actor lane m) ∧ (encode (membersJson (storedMembers c input))).length ≤ maxScopeBytes ∧
    Above before input

theorem AllMapped.stored {input : List MemberInput} (h : AllMapped c input) (ht : ∀ m ∈ input, Takes c actor lane m) :
    ∀ m ∈ input, ∃ x, storedMember c m = some x := by
  intro m hm
  obtain ⟨record, policy, id, revision, request, h⟩ := h m hm
  obtain ⟨-, -, -, -, -, -, version, hversion⟩ := h.takes_iff.mp (ht m hm)
  rw [h.stored, hversion]
  exact ⟨_, rfl⟩

/-- When the next chunk is taken, and what it leaves. -/
theorem appendCohortScope_ok {expected : Nat} {reviewer : Actor} {sent : List (List MemberInput)} {u u' : ScopeUpload}
    (hactor : humanMaintainer actor "" = .ok reviewer) (hu : Holds c lane expected reviewer.id sent u)
    {input : List MemberInput} (hindex : sent.length < 4096) (hne : input ≠ []) (hshort : input.length ≤ 100)
    (hmapped : AllMapped c input) (hnodup : ((sent ++ [input]).flatten.map (·.pkgbase)).Nodup)
    (hroom : (sent ++ [input]).flatten.length ≤ expected) :
    appendCohortScope c actor u sent.length input = .ok u' ↔
      Accepted c actor lane sent.flatten input ∧ u' = nextUpload c u sent.length input := by
  have hflatten : (sent ++ [input]).flatten = sent.flatten ++ input := by simp
  have hinput : (input.map (·.pkgbase)).Nodup := by
    rw [hflatten, List.map_append] at hnodup
    exact (List.nodup_append.mp hnodup).2.1
  have hfresh : u.chunks.find? (·.index = sent.length) = none := by
    refine List.find?_eq_none.mpr fun chunk hchunk => ?_
    simp [Nat.ne_of_lt (hu.indexed chunk hchunk)]
  have hlength (hstored : ∀ m ∈ input, ∃ x, storedMember c m = some x) : (storedMembers c input).length = input.length := by
    have h := congrArg List.length (storedMembers_names hstored)
    simpa using h
  rw [hflatten, List.length_append] at hroom
  rw [appendCohortScope, hactor]
  constructor
  · intro hok
    obtain ⟨_, hreviewer, hok⟩ := bind_ok.mp hok
    cases hreviewer
    obtain ⟨members, hmembers, hok⟩ := bind_ok.mp (guard_ok.mp (guard_ok.mp hok).2).2
    rw [hu.lane] at hmembers
    obtain ⟨htakes, rfl⟩ := (cohortManifest_ok hactor hmapped hinput).mp hmembers
    obtain ⟨hbytes, hok⟩ := guard_ok.mp hok
    rw [hfresh] at hok
    obtain ⟨hgo, hok⟩ := guard_ok.mp hok
    have hstored := hmapped.stored htakes
    obtain ⟨⟨hfirst, hbelow⟩, -⟩ := stored_ends hne hstored
    refine ⟨⟨htakes, Nat.le_of_not_lt hbytes, ?_⟩, ?_⟩
    · exact (hu.above_iff hmapped.named hfirst hbelow).mp fun hle => hgo (.inr (.inr (.inl hle)))
    · dsimp only at hok
      split at hok
      · exact (Except.ok.inj hok).symm
      · cases hok
  · rintro ⟨⟨htakes, hbytes, habove⟩, rfl⟩
    have hstored := hmapped.stored htakes
    obtain ⟨⟨hfirst, hbelow⟩, -⟩ := stored_ends hne hstored
    have hgo : ¬(u.sealedRevision ≠ none ∨ sent.length ≠ u.nextChunk ∨
        UnitsLE (((storedMembers c input).head?.map (·.pkgbase)).getD "") u.lastPkgbase ∨
        u.memberCount + (storedMembers c input).length > u.expectedCount) := by
      rintro (h | h | h | h)
      · exact h hu.unsealed
      · exact h hu.next.symm
      · exact (hu.above_iff hmapped.named hfirst hbelow).mpr habove h
      · rw [hu.count, hlength hstored, hu.expected] at h
        omega
    have hunique := (hu.append hne hmapped hstored habove).unique hnodup
    refine bind_ok.mpr ⟨reviewer, rfl, guard_ok.mpr ⟨not_not.mpr hu.createdBy, guard_ok.mpr ⟨by simp [hne]; omega, ?_⟩⟩⟩
    refine bind_ok.mpr ⟨storedMembers c input, ?_, guard_ok.mpr ⟨by omega, ?_⟩⟩
    · rw [hu.lane]
      exact (cohortManifest_ok hactor hmapped hinput).mpr ⟨htakes, rfl⟩
    · rw [hfresh]
      exact guard_ok.mpr ⟨hgo, if_pos hunique⟩

/-! ## Runs -/

def appendChunk (c : Catalog) (actor : Option Actor) (u : ScopeUpload) (chunk : List MemberInput × Nat) :
    Except PolicyError ScopeUpload :=
  appendCohortScope c actor u chunk.2 chunk.1

/-- What chunks sent one after the other are to be. -/
def AllAccepted (c : Catalog) (actor : Option Actor) (lane : Lane) (before : List MemberInput) (chunks : List (List MemberInput)) :
    Prop :=
  (∀ input ∈ chunks, Accepted c actor lane before input) ∧ chunks.Pairwise Above

theorem allAccepted_cons {before input : List MemberInput} {rest : List (List MemberInput)} :
    AllAccepted c actor lane before (input :: rest) ↔
      Accepted c actor lane before input ∧ AllAccepted c actor lane (before ++ input) rest := by
  have habove {other : List MemberInput} : Above (before ++ input) other ↔ Above before other ∧ Above input other := by
    simp only [Above, List.mem_append, or_imp, forall_and]
  simp only [AllAccepted, Accepted, List.forall_mem_cons, List.pairwise_cons, habove]
  constructor
  · rintro ⟨⟨hinput, hrest⟩, hbefore, hpairs⟩
    exact ⟨hinput, fun other h => ⟨(hrest other h).1, (hrest other h).2.1, (hrest other h).2.2, hbefore other h⟩, hpairs⟩
  · rintro ⟨hinput, hrest, hpairs⟩
    exact ⟨⟨hinput, fun other h => ⟨(hrest other h).1, (hrest other h).2.1, (hrest other h).2.2.1⟩⟩,
      fun other h => (hrest other h).2.2.2, hpairs⟩

/-- Which chunks are taken one after the other, and what they leave. -/
theorem appends_ok {expected : Nat} {reviewer : Actor} (hactor : humanMaintainer actor "" = .ok reviewer)
    {rest sent : List (List MemberInput)} {u : ScopeUpload} (hu : Holds c lane expected reviewer.id sent u)
    (hindex : (sent ++ rest).length ≤ 4096) (hshort : ∀ input ∈ rest, input ≠ [] ∧ input.length ≤ 100 ∧ AllMapped c input)
    (hnodup : ((sent ++ rest).flatten.map (·.pkgbase)).Nodup) (hroom : (sent ++ rest).flatten.length ≤ expected) :
    ((∃ u', (rest.zipIdx sent.length).foldlM (appendChunk c actor) u = .ok u') ↔ AllAccepted c actor lane sent.flatten rest) ∧
      ∀ u', (rest.zipIdx sent.length).foldlM (appendChunk c actor) u = .ok u' →
        Holds c lane expected reviewer.id (sent ++ rest) u' := by
  induction rest generalizing sent u with
  | nil =>
    refine ⟨⟨fun _ => ⟨by simp, .nil⟩, fun _ => ⟨u, rfl⟩⟩, fun u' h => ?_⟩
    cases h
    rwa [List.append_nil]
  | cons input rest ih =>
    obtain ⟨⟨hne, hlength, hmapped⟩, hshort⟩ := List.forall_mem_cons.mp hshort
    have hall : sent ++ input :: rest = sent ++ [input] ++ rest := List.append_cons sent input rest
    rw [hall] at hindex hnodup hroom
    have hinput : ((sent ++ [input]).flatten.map (·.pkgbase)).Nodup := by
      rw [List.flatten_append, List.map_append] at hnodup
      exact (List.nodup_append.mp hnodup).1
    have hfits : (sent ++ [input]).flatten.length ≤ expected := by
      rw [List.flatten_append, List.length_append] at hroom
      omega
    have hlt : sent.length < 4096 := by
      simp only [List.length_append, List.length_singleton] at hindex
      omega
    have hstep : ∀ v, appendCohortScope c actor u sent.length input = .ok v ↔
        Accepted c actor lane sent.flatten input ∧ v = nextUpload c u sent.length input := fun _ =>
      appendCohortScope_ok hactor hu hlt hne hlength hmapped hinput hfits
    have hsent : (sent ++ [input]).flatten = sent.flatten ++ input := by simp
    have hcount : (sent ++ [input]).length = sent.length + 1 := by simp
    have hnext (ha : Accepted c actor lane sent.flatten input) := ih (hu.append hne hmapped (hmapped.stored ha.1) ha.2.2) hindex hshort
      hnodup hroom
    rw [List.zipIdx_cons, List.foldlM_cons, allAccepted_cons, ← hsent, ← hcount, hall]
    constructor
    · constructor
      · rintro ⟨u', h⟩
        obtain ⟨u₁, hu₁, h⟩ := bind_ok.mp h
        obtain ⟨ha, rfl⟩ := (hstep u₁).mp hu₁
        exact ⟨ha, (hnext ha).1.mp ⟨u', h⟩⟩
      · rintro ⟨ha, hrest⟩
        obtain ⟨u', h⟩ := (hnext ha).1.mpr hrest
        exact ⟨u', bind_ok.mpr ⟨_, (hstep _).mpr ⟨ha, rfl⟩, h⟩⟩
    · intro u' h
      obtain ⟨u₁, hu₁, h⟩ := bind_ok.mp h
      obtain ⟨ha, rfl⟩ := (hstep u₁).mp hu₁
      exact (hnext ha).2 u' h

/-- An upload that has every member is ready for its seal. -/
theorem Holds.sealable {createdBy : String} {sent : List (List MemberInput)} {u : ScopeUpload}
    (hu : Holds c lane sent.flatten.length createdBy sent u) (hne : sent.flatten ≠ []) : sealCoverage u = .ok () := by
  have hentries : u.entries ≠ [] := by
    intro hnil
    have hperm := hu.entries
    rw [hnil, List.map_nil] at hperm
    exact hne (List.map_eq_nil_iff.mp (List.perm_nil.mp hperm.symm))
  obtain ⟨e, rest, he⟩ := List.exists_cons_of_ne_nil hentries
  obtain ⟨target, htarget⟩ := List.exists_mem_of_ne_nil _ e.member.policy.targeted
  have hareas : (u.entries.map (·.member.policy.ownerArea)).eraseDups ≠ [] := by
    refine List.ne_nil_of_mem (List.mem_eraseDups.mpr (List.mem_map_of_mem (a := e) ?_))
    rw [he]
    exact List.mem_cons_self
  have htargets : (u.entries.flatMap (·.member.policy.architectures)).eraseDups ≠ [] := by
    refine List.ne_nil_of_mem (a := target) (List.mem_eraseDups.mpr (List.mem_flatMap.mpr ⟨e, ?_, htarget⟩))
    rw [he]
    exact List.mem_cons_self
  have hcount : u.memberCount = u.expectedCount := hu.count.trans hu.expected.symm
  rw [sealCoverage, if_neg (not_not.mpr hcount), hu.walk]
  refine if_neg ?_
  rintro (h | h | h | h)
  · exact h hcount
  · exact h (hu.length.trans hu.next.symm)
  · exact hareas h
  · exact htargets h
end
end Omapkg.Server.Scope
