import Mathlib.Data.List.Forall2
import Mathlib.Data.List.Dedup
import Omapkg.Lib.Fallible
import Omapkg.Lib.Hash
import Omapkg.Server.LicenseGrammar
import Omapkg.Server.RebuildMembers
/-!
# Catalog manifests

`parseCatalogManifest` of `src/src/lib/server/catalog-ownership.ts`, and `publicSourceURL` of
`src/src/lib/server/policy.ts`. A manifest is checked, its texts are put in one form and its lists
in order. The URLs are measured before they are written as the parser serialises them.
-/

namespace Omapkg.Server.Catalog

open Utf Arch Fallible
open Rebuild (UnitsLE sorted sorted_perm sorted_pairwise sorted_congr mem_sorted)
open Desc (parseDeclaredLicense)

/-! ## Manifests -/

inductive Collection where
  | core | extra | multilib | omarchy | omapkg
  deriving DecidableEq, Repr

inductive ReleaseLane where
  | system | opr
  deriving DecidableEq, Repr

inductive InstallationRole where
  | baseSystem | omarchyDefault | optional | buildOnly
  deriving DecidableEq, Repr

inductive PackageOrigin where
  | arch | omarchy | upstream | aurReference | alarmReference
  deriving DecidableEq, Repr

inductive SourceKind where
  | git | archive
  deriving DecidableEq, Repr

inductive Area where
  | desktop | development | gaming | multimedia | productivity | system
  deriving DecidableEq, Repr

inductive ArtifactTarget where
  | any | native
  deriving DecidableEq, Repr

structure ArchitectureException where
  architecture : Architecture
  reason : JsString
  deriving DecidableEq

structure SourceReference where
  url : JsString
  commit : String
  deriving DecidableEq

/-- A manifest, with the values that its lists of choices name. -/
structure CatalogManifest where
  pkgbase : String
  outputs : List String
  collection : Collection
  lane : ReleaseLane
  role : InstallationRole
  origin : PackageOrigin
  upstreamUrl : JsString
  sourceKind : SourceKind
  description : JsString
  license : JsString
  ownerArea : Area
  architectures : List Architecture
  artifactArchitecture : ArtifactTarget
  portableOutputs : Option (List String)
  runtimeGroups : Option (List (List String))
  architectureExceptions : List ArchitectureException
  sourceReference : Option SourceReference
  rebuildOn : List String
  deriving DecidableEq

/-! ## The schema -/

def isName (s : String) : Bool := isPackageName s.toList

/-- A list of names, of a length between two bounds. -/
def isNames (low high : Nat) (names : List String) : Bool := low ≤ names.length && names.length ≤ high && names.all isName

/-- `^[a-f0-9]{40}(?:[a-f0-9]{24})?$`. -/
def isCommit (s : String) : Bool := (s.toList.length = 40 || s.toList.length = 64) && s.toList.all Hash.isLowerHex

def isReason (value : JsString) : Bool := 1 ≤ value.length && value.length ≤ 2000 && !value.any isControl

/-- What `v.trim()` makes of the texts. -/
def trimmed (m : CatalogManifest) : CatalogManifest :=
  { m with description := trim m.description
           architectureExceptions := m.architectureExceptions.map fun e => { e with reason := trim e.reason } }

/-- The limits of the schema on the fields that are no lists. -/
def fitsTexts (m : CatalogManifest) : Bool :=
  isName m.pkgbase && m.upstreamUrl.length ≤ 2048 && (1 ≤ m.description.length && m.description.length ≤ 500) &&
    (m.architectureExceptions.length ≤ 1 && m.architectureExceptions.all fun e => isReason e.reason) &&
    m.sourceReference.all fun r => isCommit r.commit

/-- The limits of the schema on the lists. -/
def fitsLists (m : CatalogManifest) : Bool :=
  isNames 1 256 m.outputs && (1 ≤ m.architectures.length && m.architectures.length ≤ 2) &&
    m.portableOutputs.all (isNames 0 256) &&
    (m.runtimeGroups.all fun groups => 1 ≤ groups.length && groups.length ≤ 256 && groups.all (isNames 1 256)) &&
    isNames 0 256 m.rebuildOn

/-! ## URLs -/

/-- What is read of a parsed URL. -/
structure Url where
  href : JsString
  protocol : JsString
  username : JsString
  password : JsString
  port : JsString
  hash : JsString
  hostname : JsString
  searchKeys : List JsString
  deriving DecidableEq

/-- `toLowerCase`, of the characters that have a lower case in ASCII. -/
def lowerChar (c : Char) : List Char :=
  if 'A' ≤ c ∧ c ≤ 'Z' then [Char.ofNat (c.toNat + 32)]
  else if c = '\u212A' then ['k']
  else if c = '\u0130' then ['i', '\u0307']
  else [c]

def toLowerCase (s : JsString) : List Char := (toText s).toList.flatMap lowerChar

def sensitiveWords : List String :=
  ["auth", "authorization", "bearer", "credential", "credentials", "jwt", "key", "password", "secret", "sig", "signature", "token"]

def sensitiveEndings : List String := ["apikey", "authorization", "credential", "password", "secret", "signature", "token"]

def sensitiveQuery (name : JsString) : Bool :=
  let parts := ((toLowerCase name).splitOnP fun c => !isLowerAlnum c).filter (· ≠ [])
  let compact := parts.flatten
  (parts.any fun part => sensitiveWords.any fun word => part = word.toList) ||
    sensitiveEndings.any fun ending => ending.toList.isSuffixOf compact

/-- `/^\d+(\.\d+){3}$/`. -/
def isDottedQuad (host : List Char) : Bool :=
  let parts := host.splitOn '.'
  parts.length = 4 && parts.all fun part => part ≠ [] && part.all Char.isDigit

/-- An https URL of a public host, without credentials, port or fragment. -/
def isPublic (url : Url) : Bool :=
  let host := toLowerCase url.hostname
  url.protocol = units "https:" && url.username = [] && url.password = [] && url.port = [] && url.hash = [] &&
    host.contains '.' && !(['.'].isSuffixOf host) && !(".local".toList.isSuffixOf host) && !(".internal".toList.isSuffixOf host) &&
    !(".localhost".toList.isSuffixOf host) && host ≠ "localhost".toList && !host.contains ':' && !isDottedQuad host &&
    !url.searchKeys.any sensitiveQuery

section
variable (parseUrl : JsString → Option Url)

def publicSourceURL (input : JsString) : Except PolicyError JsString :=
  match parseUrl input with
  | none => reject "Enter a valid HTTPS upstream URL." 400
  | some url =>
    if isPublic url = false ∨ input.length > 2048 then
      reject "Source must use a public HTTPS URL without credentials, IP literals, ports, or fragments." 400
    else .ok url.href

def externalPackageSource (url : JsString) : Bool :=
  (parseUrl url).any fun u =>
    let host := toLowerCase u.hostname
    host = "aur.archlinux.org".toList || host = "archlinuxarm.org".toList || ".archlinuxarm.org".toList.isSuffixOf host

def referenceURL : Option SourceReference → Except PolicyError (Option SourceReference)
  | none => .ok none
  | some r => (publicSourceURL parseUrl r.url).map fun url => some { r with url }

def declaredLicense (input : JsString) : Except PolicyError JsString :=
  match parseDeclaredLicense input with
  | some value => .ok value
  | none => reject "Declare a valid SPDX license expression, Proprietary, or Unknown." 400

end

/-! ## Lists -/

def refuse (bad : Bool) (message : String) : Except PolicyError Unit := if bad then reject message 400 else .ok ()

def repeats {α : Type} [DecidableEq α] (xs : List α) : Bool := !decide xs.Nodup

/-- `group.sort().join(' ')`. -/
def groupText (group : List String) : String := " ".intercalate (sorted group)

/-- The groups do not cover the outputs, or one has a name twice or that is no output. -/
def badGroups (outputs : List String) (groups : List (List String)) : Bool :=
  groups.flatten.dedup.length ≠ outputs.length || (outputs.any fun name => !groups.flatten.contains name) ||
    groups.any fun group => repeats group || group.any fun name => !outputs.contains name

def requiredArchitectures : List Architecture := [.x86_64, .aarch64]

def excepted (exceptions : List ArchitectureException) (a : Architecture) : Bool := exceptions.any (·.architecture = a)

def checkLists (m : CatalogManifest) : Except PolicyError Unit := do
  let _ ← refuse ((m.origin = .aurReference || m.origin = .alarmReference) && m.sourceReference.isNone)
    "Retain the original AUR/ALARM reference and immutable commit."
  let _ ← refuse (repeats m.outputs || repeats m.architectures || repeats m.rebuildOn)
    "Catalog lists cannot contain duplicate entries."
  let _ ← refuse (m.portableOutputs.any fun names => repeats names || names.any fun name => !m.outputs.contains name)
    "Portable outputs must be unique names from this package output set."
  let _ ← refuse (m.runtimeGroups.any (badGroups m.outputs))
    "Installation groups must cover every output using only unique names from this package."
  let _ ← refuse (m.runtimeGroups.any fun groups => repeats (groups.map groupText)) "Installation groups cannot repeat."
  let _ ← refuse (m.architectures.any (excepted m.architectureExceptions) ||
      requiredArchitectures.any fun a => !m.architectures.contains a && !excepted m.architectureExceptions a)
    "Both primary architectures are required unless a missing target has an explicit reviewed reason."
  let _ ← refuse ((m.collection = .core || m.collection = .extra || m.collection = .multilib || m.role = .baseSystem ||
      m.role = .omarchyDefault) && m.lane ≠ .system)
    "Core/extra and default-system packages belong to versioned system releases."
  refuse (m.collection = .multilib && m.architectures.contains .aarch64) "Multilib is an x86_64-only collection."

def architectureLE (a b : Architecture) : Prop := UnitsLE a.text b.text

instance : DecidableRel architectureLE := fun _ _ => inferInstanceAs (Decidable (UnitsLE _ _))

/-- Groups by their text. -/
def groupLE (a b : List String) : Prop := UnitsLE (" ".intercalate a) (" ".intercalate b)

instance : DecidableRel groupLE := fun _ _ => inferInstanceAs (Decidable (UnitsLE _ _))

def sortGroups (groups : List (List String)) : List (List String) := (groups.map sorted).insertionSort groupLE

/-- Every list in order; there is at most one exception. -/
def sortLists (m : CatalogManifest) : CatalogManifest :=
  { m with outputs := sorted m.outputs
           architectures := m.architectures.insertionSort architectureLE
           portableOutputs := m.portableOutputs.map sorted
           runtimeGroups := m.runtimeGroups.map sortGroups
           rebuildOn := sorted m.rebuildOn }

section
variable (parseUrl : JsString → Option Url)

/-- What follows the schema. -/
def normalize (value : CatalogManifest) : Except PolicyError CatalogManifest := do
  let upstreamUrl ← publicSourceURL parseUrl value.upstreamUrl
  let license ← declaredLicense value.license
  let _ ← refuse (externalPackageSource parseUrl upstreamUrl)
    "Use the authoritative upstream source for an OPR replacement; AUR/ALARM is reference evidence only."
  let sourceReference ← referenceURL parseUrl value.sourceReference
  let value := { value with upstreamUrl, license, sourceReference }
  let _ ← checkLists value
  .ok (sortLists value)

def parseCatalogManifest (input : CatalogManifest) : Except PolicyError CatalogManifest :=
  let value := trimmed input
  if (fitsTexts value && fitsLists value) = false then
    reject "Invalid catalog manifest. Check package identity, ownership, source and architecture fields." 400
  else normalize parseUrl value

end

/-! ## The order of the lists -/

/-- What the groups say: the groups in another order, and each of them in another order. -/
def Regrouped (gs hs : List (List String)) : Prop := ∃ ks, gs.Perm ks ∧ List.Forall₂ List.Perm ks hs

/-- All that is no list in any order. -/
def withoutLists (m : CatalogManifest) : CatalogManifest :=
  { m with outputs := [], architectures := [], portableOutputs := none, runtimeGroups := none, rebuildOn := [] }

/-- Two manifests that differ in the order of their lists only. -/
structure Reordered (a b : CatalogManifest) : Prop where
  rest : withoutLists a = withoutLists b
  outputs : a.outputs.Perm b.outputs
  architectures : a.architectures.Perm b.architectures
  portableOutputs : Option.Rel List.Perm a.portableOutputs b.portableOutputs
  runtimeGroups : Option.Rel Regrouped a.runtimeGroups b.runtimeGroups
  rebuildOn : a.rebuildOn.Perm b.rebuildOn

theorem map_sorted_forall₂ {gs hs : List (List String)} (h : List.Forall₂ List.Perm gs hs) : gs.map sorted = hs.map sorted := by
  induction h with
  | nil => rfl
  | cons hg _ ih => rw [List.map_cons, List.map_cons, sorted_congr hg, ih]

/-- In whatever order, the groups are the same ones once each is in order. -/
theorem Regrouped.sorted_perm {gs hs : List (List String)} (h : Regrouped gs hs) : (gs.map sorted).Perm (hs.map sorted) := by
  obtain ⟨ks, hperm, hgroups⟩ := h
  rw [← map_sorted_forall₂ hgroups]
  exact hperm.map sorted

/-- What does not see the order in a group is told by the groups in order. -/
theorem Regrouped.map_perm {α : Type} {f : List String → α} (hf : ∀ g, f (sorted g) = f g) {gs hs : List (List String)}
    (h : Regrouped gs hs) : (gs.map f).Perm (hs.map f) := by
  have hmap : ∀ ks : List (List String), (ks.map sorted).map f = ks.map f := by
    intro ks
    rw [List.map_map]
    exact List.map_congr_left fun g _ => hf g
  rw [← hmap gs, ← hmap hs]
  exact h.sorted_perm.map f

theorem Regrouped.any_eq {p : List String → Bool} (hp : ∀ g, p (sorted g) = p g) {gs hs : List (List String)}
    (h : Regrouped gs hs) : gs.any p = hs.any p := by
  have hany : ∀ ks : List (List String), ks.any p = (ks.map p).any id := fun ks => by rw [List.any_map]; rfl
  rw [hany, hany]
  exact (h.map_perm hp).any_eq

theorem Regrouped.all_eq {p : List String → Bool} (hp : ∀ g, p (sorted g) = p g) {gs hs : List (List String)}
    (h : Regrouped gs hs) : gs.all p = hs.all p := by
  have hall : ∀ ks : List (List String), ks.all p = (ks.map p).all id := fun ks => by rw [List.all_map]; rfl
  rw [hall, hall]
  exact (h.map_perm hp).all_eq

theorem Regrouped.length_eq {gs hs : List (List String)} (h : Regrouped gs hs) : gs.length = hs.length := by
  obtain ⟨ks, hperm, hgroups⟩ := h
  exact hperm.length_eq.trans hgroups.length_eq

theorem flatten_forall₂ {gs hs : List (List String)} (h : List.Forall₂ List.Perm gs hs) : gs.flatten.Perm hs.flatten := by
  induction h with
  | nil => exact List.Perm.refl _
  | cons hg _ ih =>
    rw [List.flatten_cons, List.flatten_cons]
    exact hg.append ih

theorem Regrouped.flatten_perm {gs hs : List (List String)} (h : Regrouped gs hs) : gs.flatten.Perm hs.flatten := by
  obtain ⟨ks, hperm, hgroups⟩ := h
  exact hperm.flatten.trans (flatten_forall₂ hgroups)

/-! ## The checks do not see the order -/

theorem repeats_congr {α : Type} [DecidableEq α] {xs ys : List α} (h : xs.Perm ys) : repeats xs = repeats ys := by
  unfold repeats
  rw [decide_eq_decide.mpr h.nodup_iff]

theorem isNames_congr {low high : Nat} {xs ys : List String} (h : xs.Perm ys) : isNames low high xs = isNames low high ys := by
  unfold isNames
  rw [h.length_eq, h.all_eq]

theorem groupText_sorted (group : List String) : groupText (sorted group) = groupText group := by
  unfold groupText
  rw [sorted_congr (sorted_perm group)]

theorem badGroups_congr {outputs outputs' : List String} {gs hs : List (List String)} (ho : outputs.Perm outputs')
    (hg : Regrouped gs hs) : badGroups outputs gs = badGroups outputs' hs := by
  have hcover : (outputs.any fun name => !gs.flatten.contains name) = outputs'.any fun name => !hs.flatten.contains name := by
    rw [ho.any_eq]
    simp only [hg.flatten_perm.contains_eq]
  have hgroup : ∀ g, (repeats (sorted g) || (sorted g).any fun name => !outputs'.contains name) =
      (repeats g || g.any fun name => !outputs'.contains name) := by
    intro g
    rw [repeats_congr (sorted_perm g), (sorted_perm g).any_eq]
  unfold badGroups
  rw [hcover, hg.flatten_perm.dedup.length_eq, ho.length_eq]
  simp only [ho.contains_eq]
  rw [hg.any_eq hgroup]

/-- One part of two manifests that agree without their lists. -/
theorem Reordered.part {α : Type} {a b : CatalogManifest} (h : Reordered a b) (f : CatalogManifest → α)
    (hf : ∀ m, f (withoutLists m) = f m) : f a = f b := by
  rw [← hf a, ← hf b, h.rest]

theorem fitsTexts_reordered {a b : CatalogManifest} (h : Reordered a b) : fitsTexts a = fitsTexts b :=
  h.part fitsTexts fun _ => rfl

theorem any_rel {α : Type} {r : α → α → Prop} {p q : α → Bool} {x y : Option α} (h : Option.Rel r x y)
    (hpq : ∀ a b, r a b → p a = q b) : x.any p = y.any q := by
  cases h with
  | none => rfl
  | some hr => exact hpq _ _ hr

theorem all_rel {α : Type} {r : α → α → Prop} {p q : α → Bool} {x y : Option α} (h : Option.Rel r x y)
    (hpq : ∀ a b, r a b → p a = q b) : x.all p = y.all q := by
  cases h with
  | none => rfl
  | some hr => exact hpq _ _ hr

theorem fitsLists_reordered {a b : CatalogManifest} (h : Reordered a b) : fitsLists a = fitsLists b := by
  have hgroups : a.runtimeGroups.all (fun groups => 1 ≤ groups.length && groups.length ≤ 256 && groups.all (isNames 1 256)) =
      b.runtimeGroups.all fun groups => 1 ≤ groups.length && groups.length ≤ 256 && groups.all (isNames 1 256) := by
    refine all_rel h.runtimeGroups fun gs hs hg => ?_
    rw [hg.length_eq, hg.all_eq fun g => isNames_congr (sorted_perm g)]
  have hportable : a.portableOutputs.all (isNames 0 256) = b.portableOutputs.all (isNames 0 256) :=
    all_rel h.portableOutputs fun _ _ hperm => isNames_congr hperm
  unfold fitsLists
  rw [isNames_congr h.outputs, h.architectures.length_eq, hportable, hgroups, isNames_congr h.rebuildOn]

theorem checkLists_reordered {a b : CatalogManifest} (h : Reordered a b) : checkLists a = checkLists b := by
  have horigin : a.origin = b.origin := h.part (·.origin) fun _ => rfl
  have hreference : a.sourceReference = b.sourceReference := h.part (·.sourceReference) fun _ => rfl
  have hexceptions : a.architectureExceptions = b.architectureExceptions := h.part (·.architectureExceptions) fun _ => rfl
  have hcollection : a.collection = b.collection := h.part (·.collection) fun _ => rfl
  have hrole : a.role = b.role := h.part (·.role) fun _ => rfl
  have hlane : a.lane = b.lane := h.part (·.lane) fun _ => rfl
  have hportable : (a.portableOutputs.any fun names => repeats names || names.any fun name => !a.outputs.contains name) =
      b.portableOutputs.any fun names => repeats names || names.any fun name => !b.outputs.contains name := by
    refine any_rel h.portableOutputs fun names names' hperm => ?_
    rw [repeats_congr hperm, hperm.any_eq]
    simp only [h.outputs.contains_eq]
  have hgroups : a.runtimeGroups.any (badGroups a.outputs) = b.runtimeGroups.any (badGroups b.outputs) :=
    any_rel h.runtimeGroups fun _ _ hg => badGroups_congr h.outputs hg
  have htexts : (a.runtimeGroups.any fun groups => repeats (groups.map groupText)) =
      b.runtimeGroups.any fun groups => repeats (groups.map groupText) :=
    any_rel h.runtimeGroups fun _ _ hg => repeats_congr (hg.map_perm groupText_sorted)
  unfold checkLists
  rw [horigin, hreference, hexceptions, hcollection, hrole, hlane, hportable, hgroups, htexts, repeats_congr h.outputs,
    repeats_congr h.architectures, repeats_congr h.rebuildOn, h.architectures.any_eq]
  simp only [h.architectures.contains_eq]

/-! ## The order of what is returned -/

theorem refuse_ok {bad : Bool} {message : String} : refuse bad message = .ok () ↔ bad = false := by
  unfold refuse
  cases bad <;> simp [reject]

/-- The groups of a manifest that passes have texts of their own. -/
theorem checkLists_groups {m : CatalogManifest} (h : checkLists m = .ok ()) :
    (m.runtimeGroups.any fun groups => repeats (groups.map groupText)) = false := by
  unfold checkLists at h
  obtain ⟨_, -, h⟩ := bind_ok.mp h
  obtain ⟨_, -, h⟩ := bind_ok.mp h
  obtain ⟨_, -, h⟩ := bind_ok.mp h
  obtain ⟨_, -, h⟩ := bind_ok.mp h
  obtain ⟨_, htexts, -⟩ := bind_ok.mp h
  exact refuse_ok.mp htexts

theorem architectureLE_antisymm {a b : Architecture} (h : architectureLE a b) (h' : architectureLE b a) : a = b := by
  have ht : a.text = b.text := Rebuild.UnitsLE.antisymm h h'
  cases a <;> cases b <;> first | rfl | exact absurd ht (by decide)

theorem sorted_architectures {xs ys : List Architecture} (h : xs.Perm ys) :
    xs.insertionSort architectureLE = ys.insertionSort architectureLE := by
  have htotal : Std.Total architectureLE := ⟨fun a b => le_total (α := List Nat) _ _⟩
  have htrans : IsTrans Architecture architectureLE := ⟨fun a b c => le_trans (α := List Nat)⟩
  exact ((List.perm_insertionSort _ _).trans (h.trans (List.perm_insertionSort _ _).symm)).eq_of_pairwise
    (fun _ _ _ _ hab hba => architectureLE_antisymm hab hba) (List.pairwise_insertionSort _ _) (List.pairwise_insertionSort _ _)

/-- Groups whose texts differ have one order only. -/
theorem sortGroups_congr {gs hs : List (List String)} (h : Regrouped gs hs) (hn : (gs.map groupText).Nodup) :
    sortGroups gs = sortGroups hs := by
  have htotal : Std.Total groupLE := ⟨fun a b => le_total (α := List Nat) _ _⟩
  have htrans : IsTrans (List String) groupLE := ⟨fun a b c => le_trans (α := List Nat)⟩
  unfold sortGroups
  refine ((List.perm_insertionSort _ _).trans (h.sorted_perm.trans (List.perm_insertionSort _ _).symm)).eq_of_pairwise ?_
    (List.pairwise_insertionSort _ _) (List.pairwise_insertionSort _ _)
  intro x y hx hy hxy hyx
  rw [List.mem_insertionSort, List.mem_map] at hx hy
  obtain ⟨g, hg, rfl⟩ := hx
  rw [← List.mem_map, ← h.sorted_perm.mem_iff, List.mem_map] at hy
  obtain ⟨g', hg', rfl⟩ := hy
  have htext : groupText g = groupText g' := Rebuild.UnitsLE.antisymm hxy hyx
  rw [List.inj_on_of_nodup_map hn hg hg' htext]

theorem sortLists_reordered {a b : CatalogManifest} (h : Reordered a b) (hok : checkLists a = .ok ()) :
    sortLists a = sortLists b := by
  have hportable : a.portableOutputs.map sorted = b.portableOutputs.map sorted := by
    have hrel := h.portableOutputs
    generalize a.portableOutputs = x, b.portableOutputs = y at hrel
    cases hrel with
    | none => rfl
    | some hperm => rw [Option.map_some, Option.map_some, sorted_congr hperm]
  have hgroups : a.runtimeGroups.map sortGroups = b.runtimeGroups.map sortGroups := by
    have hrel := h.runtimeGroups
    have htexts := checkLists_groups hok
    generalize a.runtimeGroups = x, b.runtimeGroups = y at hrel htexts
    cases hrel with
    | none => rfl
    | some hg =>
      rw [Option.any_some, repeats, Bool.not_eq_false', decide_eq_true_eq] at htexts
      rw [Option.map_some, Option.map_some, sortGroups_congr hg htexts]
  have hrest : ∀ m, sortLists m = { withoutLists m with
      outputs := sorted m.outputs
      architectures := m.architectures.insertionSort architectureLE
      portableOutputs := m.portableOutputs.map sorted
      runtimeGroups := m.runtimeGroups.map sortGroups
      rebuildOn := sorted m.rebuildOn } := fun _ => rfl
  rw [hrest a, hrest b, h.rest, hportable, hgroups, sorted_congr h.outputs, sorted_architectures h.architectures,
    sorted_congr h.rebuildOn]

/-- Putting the lists in order changes nothing else. -/
theorem reordered_sortLists (m : CatalogManifest) : Reordered (sortLists m) m := by
  have hportable : Option.Rel List.Perm (m.portableOutputs.map sorted) m.portableOutputs := by
    cases m.portableOutputs with
    | none => exact .none
    | some names => exact .some (sorted_perm names)
  have hgroups : Option.Rel Regrouped (m.runtimeGroups.map sortGroups) m.runtimeGroups := by
    cases m.runtimeGroups with
    | none => exact .none
    | some gs =>
      refine .some ⟨gs.map sorted, List.perm_insertionSort _ _, ?_⟩
      rw [List.forall₂_map_left_iff]
      exact List.forall₂_same.mpr fun g _ => sorted_perm g
  exact {
    rest := rfl
    outputs := sorted_perm _
    architectures := List.perm_insertionSort _ _
    portableOutputs := hportable
    runtimeGroups := hgroups
    rebuildOn := sorted_perm _ }

/-! ## Parsing again -/

section
variable {parseUrl : JsString → Option Url}

theorem publicSourceURL_ok {input href : JsString} : publicSourceURL parseUrl input = .ok href ↔
    ∃ url, parseUrl input = some url ∧ isPublic url = true ∧ input.length ≤ 2048 ∧ url.href = href := by
  unfold publicSourceURL
  cases parseUrl input with
  | none => simp [reject]
  | some url =>
    simp only [reject, guard_ok, Option.some.injEq, exists_eq_left', not_or, Bool.not_eq_false, Nat.not_lt, Except.ok.injEq,
      and_assoc]

theorem declaredLicense_ok {input value : JsString} :
    declaredLicense input = .ok value ↔ parseDeclaredLicense input = some value := by
  unfold declaredLicense
  cases parseDeclaredLicense input with
  | none => simp [reject]
  | some value => simp

theorem referenceURL_ok {r s : Option SourceReference} : referenceURL parseUrl r = .ok s ↔
    r = none ∧ s = none ∨ ∃ ref url, r = some ref ∧ publicSourceURL parseUrl ref.url = .ok url ∧ s = some { ref with url } := by
  cases r with
  | none => simp [referenceURL, eq_comm]
  | some ref =>
    simp only [referenceURL, reduceCtorEq, false_and, false_or, Option.some.injEq, exists_and_left, exists_eq_left']
    cases publicSourceURL parseUrl ref.url with
    | error e => simp [Except.map]
    | ok url =>
      simp only [Except.map, Except.ok.injEq, exists_eq_left']
      exact eq_comm

/-- The checked texts of a manifest, with the URLs as the parser serialises them. -/
def rewritten (value : CatalogManifest) (upstreamUrl license : JsString) (sourceReference : Option SourceReference) : CatalogManifest :=
  { value with upstreamUrl, license, sourceReference }

theorem normalize_ok {value m : CatalogManifest} : normalize parseUrl value = .ok m ↔ ∃ upstreamUrl license sourceReference,
    publicSourceURL parseUrl value.upstreamUrl = .ok upstreamUrl ∧ declaredLicense value.license = .ok license ∧
      externalPackageSource parseUrl upstreamUrl = false ∧ referenceURL parseUrl value.sourceReference = .ok sourceReference ∧
      checkLists (rewritten value upstreamUrl license sourceReference) = .ok () ∧
      sortLists (rewritten value upstreamUrl license sourceReference) = m := by
  unfold normalize
  constructor
  · intro h
    obtain ⟨upstreamUrl, hurl, h⟩ := bind_ok.mp h
    obtain ⟨license, hlicense, h⟩ := bind_ok.mp h
    obtain ⟨_, hexternal, h⟩ := bind_ok.mp h
    obtain ⟨sourceReference, hreference, h⟩ := bind_ok.mp h
    obtain ⟨_, hlists, h⟩ := bind_ok.mp h
    exact ⟨upstreamUrl, license, sourceReference, hurl, hlicense, refuse_ok.mp hexternal, hreference, hlists, Except.ok.inj h⟩
  · rintro ⟨upstreamUrl, license, sourceReference, hurl, hlicense, hexternal, hreference, hlists, hm⟩
    rw [hurl, ok_bind, hlicense, ok_bind, refuse_ok.mpr hexternal, ok_bind, hreference, ok_bind]
    exact bind_ok.mpr ⟨(), hlists, congrArg Except.ok hm⟩

theorem parse_ok {input m : CatalogManifest} : parseCatalogManifest parseUrl input = .ok m ↔
    (fitsTexts (trimmed input) && fitsLists (trimmed input)) = true ∧ normalize parseUrl (trimmed input) = .ok m := by
  unfold parseCatalogManifest
  simp only [reject, guard_ok, Bool.not_eq_false]

theorem rewritten_reordered {a b : CatalogManifest} (h : Reordered a b) (url license : JsString) (r : Option SourceReference) :
    Reordered (rewritten a url license r) (rewritten b url license r) where
  rest := h.part (fun m => withoutLists (rewritten m url license r)) fun _ => rfl
  outputs := h.outputs
  architectures := h.architectures
  portableOutputs := h.portableOutputs
  runtimeGroups := h.runtimeGroups
  rebuildOn := h.rebuildOn

theorem trimmed_reordered {a b : CatalogManifest} (h : Reordered a b) : Reordered (trimmed a) (trimmed b) where
  rest := h.part (fun m => withoutLists (trimmed m)) fun _ => rfl
  outputs := h.outputs
  architectures := h.architectures
  portableOutputs := h.portableOutputs
  runtimeGroups := h.runtimeGroups
  rebuildOn := h.rebuildOn

theorem normalize_reordered {a b : CatalogManifest} (h : Reordered a b) : normalize parseUrl a = normalize parseUrl b := by
  have hurl : a.upstreamUrl = b.upstreamUrl := h.part (·.upstreamUrl) fun _ => rfl
  have hlicense : a.license = b.license := h.part (·.license) fun _ => rfl
  have hreference : a.sourceReference = b.sourceReference := h.part (·.sourceReference) fun _ => rfl
  unfold normalize
  rw [hurl, hlicense, hreference]
  refine bind_congr fun upstreamUrl => bind_congr fun license => bind_congr fun _ => bind_congr fun r => ?_
  have hab := rewritten_reordered h upstreamUrl license r
  change (do let _ ← checkLists (rewritten a upstreamUrl license r); .ok (sortLists (rewritten a upstreamUrl license r))) =
    (do let _ ← checkLists (rewritten b upstreamUrl license r); .ok (sortLists (rewritten b upstreamUrl license r)))
  cases hok : checkLists (rewritten a upstreamUrl license r) with
  | error e => rw [← checkLists_reordered hab, hok]; rfl
  | ok u => rw [← checkLists_reordered hab, hok, ok_bind, ok_bind, sortLists_reordered hab hok]

/-- The order of the lists does not change what is made of a manifest. -/
theorem parse_reordered {a b : CatalogManifest} (h : Reordered a b) :
    parseCatalogManifest parseUrl a = parseCatalogManifest parseUrl b := by
  have ht := trimmed_reordered h
  unfold parseCatalogManifest
  simp only
  rw [fitsTexts_reordered ht, fitsLists_reordered ht, normalize_reordered ht]

end

/-! ## The limit on a URL -/

/-- What the parser serialises it reads as the same URL. -/
def SerializesBack (parseUrl : JsString → Option Url) : Prop :=
  ∀ input url, parseUrl input = some url → url.protocol = units "https:" → parseUrl url.href = some url

/-- The URL in a text has no more than 2048 units as the parser serialises it. -/
def WrittenFits (parseUrl : JsString → Option Url) (input : JsString) : Prop :=
  ∀ url, parseUrl input = some url → url.href.length ≤ 2048

structure FitsAgain (parseUrl : JsString → Option Url) (input : CatalogManifest) : Prop where
  upstreamUrl : WrittenFits parseUrl input.upstreamUrl
  sourceReference : ∀ r, input.sourceReference = some r → WrittenFits parseUrl r.url

section
variable {parseUrl : JsString → Option Url}

theorem isPublic_protocol {url : Url} (h : isPublic url = true) : url.protocol = units "https:" := by
  unfold isPublic at h
  simp only [Bool.and_eq_true, decide_eq_true_eq] at h
  tauto

theorem writtenFits_iff {input href : JsString} (h : publicSourceURL parseUrl input = .ok href) :
    WrittenFits parseUrl input ↔ href.length ≤ 2048 := by
  obtain ⟨url, hparse, -, -, rfl⟩ := publicSourceURL_ok.mp h
  constructor
  · exact fun hfits => hfits url hparse
  · intro hlength url' hparse'
    rw [hparse] at hparse'
    cases hparse'
    exact hlength

/-- A URL that was accepted is accepted as it is written just if it is not too long then. -/
theorem publicSourceURL_again (hback : SerializesBack parseUrl) {input href : JsString}
    (h : publicSourceURL parseUrl input = .ok href) : publicSourceURL parseUrl href = .ok href ↔ WrittenFits parseUrl input := by
  rw [writtenFits_iff h]
  obtain ⟨url, hparse, hpublic, -, rfl⟩ := publicSourceURL_ok.mp h
  have hagain := hback input url hparse (isPublic_protocol hpublic)
  rw [publicSourceURL_ok]
  constructor
  · rintro ⟨_, -, -, hlength, -⟩
    exact hlength
  · exact fun hlength => ⟨url, hagain, hpublic, hlength, rfl⟩

theorem referenceURL_again (hback : SerializesBack parseUrl) {r s : Option SourceReference}
    (h : referenceURL parseUrl r = .ok s) :
    referenceURL parseUrl s = .ok s ↔ ∀ ref, r = some ref → WrittenFits parseUrl ref.url := by
  rcases referenceURL_ok.mp h with ⟨rfl, rfl⟩ | ⟨ref, url, rfl, hurl, rfl⟩
  · simp [referenceURL]
  · have hagain := publicSourceURL_again hback hurl
    rw [referenceURL_ok]
    constructor
    · rintro (⟨hnone, -⟩ | ⟨_, url', href, hurl', hsome⟩) ref' hr
      · cases hnone
      · cases href
        cases hsome
        cases hr
        exact hagain.mp hurl'
    · exact fun hfits => .inr ⟨_, url, rfl, hagain.mpr (hfits ref rfl), rfl⟩

theorem declaredLicense_again {input value : JsString} (h : declaredLicense input = .ok value) :
    declaredLicense value = .ok value := by
  rw [declaredLicense_ok, Desc.parseDeclaredLicense_accepts] at h ⊢
  obtain ⟨rfl, hfits, hexpression⟩ := h
  exact ⟨(Desc.trim_trim input).symm, hfits, hexpression⟩

theorem trimmed_trimmed (m : CatalogManifest) : trimmed (trimmed m) = trimmed m := by
  unfold trimmed
  simp only [Desc.trim_trim, List.map_map, Function.comp_def]

/-- What is made of a manifest meets the schema again, the length of its URL apart. -/
theorem fits_again {value : CatalogManifest} {upstreamUrl license : JsString} {r : Option SourceReference}
    (hreference : referenceURL parseUrl value.sourceReference = .ok r)
    (hfits : (fitsTexts value && fitsLists value) = true) (hlength : upstreamUrl.length ≤ 2048) :
    (fitsTexts (sortLists (rewritten value upstreamUrl license r)) &&
      fitsLists (sortLists (rewritten value upstreamUrl license r))) = true := by
  have hcommit : (r.all fun ref => isCommit ref.commit) = value.sourceReference.all fun ref => isCommit ref.commit := by
    rcases referenceURL_ok.mp hreference with ⟨hr, rfl⟩ | ⟨ref, url, hr, -, rfl⟩
    · rw [hr]
    · rw [hr]
      rfl
  rw [fitsTexts_reordered (reordered_sortLists _), fitsLists_reordered (reordered_sortLists _)]
  rw [Bool.and_eq_true] at hfits ⊢
  refine ⟨?_, hfits.2⟩
  have htexts := hfits.1
  change (isName value.pkgbase && upstreamUrl.length ≤ 2048 && (1 ≤ value.description.length && value.description.length ≤ 500) &&
    (value.architectureExceptions.length ≤ 1 && value.architectureExceptions.all fun e => isReason e.reason) &&
    r.all fun ref => isCommit ref.commit) = true
  rw [hcommit]
  simp only [fitsTexts, Bool.and_eq_true, decide_eq_true_eq] at htexts ⊢
  tauto

/-- What a manifest became is parsed again to itself just if the URLs that were written fit the limit that was put on the
texts they were read from. -/
theorem parse_again (hback : SerializesBack parseUrl) {input m : CatalogManifest}
    (h : parseCatalogManifest parseUrl input = .ok m) :
    parseCatalogManifest parseUrl m = .ok m ↔ FitsAgain parseUrl input := by
  obtain ⟨hfits, hnormalize⟩ := parse_ok.mp h
  obtain ⟨upstreamUrl, license, r, hurl, hlicense, hexternal, hreference, hlists, rfl⟩ := normalize_ok.mp hnormalize
  have hm := reordered_sortLists (rewritten (trimmed input) upstreamUrl license r)
  have htrimmed : trimmed (sortLists (rewritten (trimmed input) upstreamUrl license r)) =
      sortLists (rewritten (trimmed input) upstreamUrl license r) :=
    congrArg (fun m => sortLists (rewritten m upstreamUrl license r)) (trimmed_trimmed input)
  have hagain : FitsAgain parseUrl input ↔
      publicSourceURL parseUrl upstreamUrl = .ok upstreamUrl ∧ referenceURL parseUrl r = .ok r := by
    rw [publicSourceURL_again hback hurl, referenceURL_again hback hreference]
    exact ⟨fun h => ⟨h.upstreamUrl, h.sourceReference⟩, fun h => ⟨h.1, h.2⟩⟩
  rw [hagain, parse_ok, htrimmed, normalize_reordered hm]
  constructor
  · rintro ⟨-, hsecond⟩
    obtain ⟨upstreamUrl', license', r', hurl', -, -, hreference', -, hm'⟩ := normalize_ok.mp hsecond
    have hurls : upstreamUrl' = upstreamUrl := congrArg CatalogManifest.upstreamUrl hm'
    have hreferences : r' = r := congrArg CatalogManifest.sourceReference hm'
    subst hurls hreferences
    exact ⟨hurl', hreference'⟩
  · rintro ⟨hurl', hreference'⟩
    obtain ⟨_, _, _, hlength, _⟩ := publicSourceURL_ok.mp hurl'
    exact ⟨fits_again hreference hfits hlength,
      normalize_ok.mpr ⟨upstreamUrl, license, r, hurl', declaredLicense_again hlicense, hexternal, hreference', hlists, rfl⟩⟩

/-- A manifest that was accepted is accepted again, and is then its own result, just if the URLs in it are no longer than
2048 units as the parser serialises them: the limit is put on the text that was sent, and escaping makes a URL longer. The
order of the lists makes no difference to what is returned. -/
theorem parse_idempotent_iff (hback : SerializesBack parseUrl) :
    (∀ input m, parseCatalogManifest parseUrl input = .ok m →
      (parseCatalogManifest parseUrl m = .ok m ↔ FitsAgain parseUrl input)) ∧
      ∀ a b, Reordered a b → parseCatalogManifest parseUrl a = parseCatalogManifest parseUrl b :=
  ⟨fun _ _ h => parse_again hback h, fun _ _ h => parse_reordered h⟩

end

/-! ## A URL that grows -/

/-- What the parser makes of a letter in a path. -/
def escapeLetter (u : UInt16) : JsString := if u = 0xE9 then units "%C3%A9" else [u]

/-- A URL of one host. -/
def hostUrl (path : JsString) : Url where
  href := units "https://a.b/" ++ path
  protocol := units "https:"
  username := []
  password := []
  port := []
  hash := []
  hostname := units "a.b"
  searchKeys := []

/-- URLs of the host, where one letter is escaped. -/
def sampleUrl (input : JsString) : Option Url :=
  if (units "https://a.b/").isPrefixOf input then some (hostUrl ((input.drop 12).flatMap escapeLetter)) else none

def sampleManifest (path : JsString) (outputs : List String) : CatalogManifest where
  pkgbase := "gtk"
  outputs := outputs
  collection := .omapkg
  lane := .opr
  role := .optional
  origin := .upstream
  upstreamUrl := units "https://a.b/" ++ path
  sourceKind := .archive
  description := units "A toolkit"
  license := units "MIT"
  ownerArea := .desktop
  architectures := [.aarch64, .x86_64]
  artifactArchitecture := .native
  portableOutputs := none
  runtimeGroups := some [["gtk"], ["gtk-doc"]]
  architectureExceptions := []
  sourceReference := none
  rebuildOn := []

theorem sampleUrl_path (path : JsString) :
    sampleUrl (units "https://a.b/" ++ path) = some (hostUrl (path.flatMap escapeLetter)) := by
  have hprefix : (units "https://a.b/").isPrefixOf (units "https://a.b/" ++ path) = true :=
    List.isPrefixOf_iff_prefix.mpr (List.prefix_append _ _)
  have hdrop : (units "https://a.b/" ++ path).drop 12 = path := List.drop_left' (by decide)
  rw [sampleUrl, if_pos hprefix, hdrop]

theorem escapeLetter_again (path : JsString) : (path.flatMap escapeLetter).flatMap escapeLetter = path.flatMap escapeLetter := by
  have hletter : ∀ u, (escapeLetter u).flatMap escapeLetter = escapeLetter u := by
    intro u
    by_cases hu : u = 0xE9
    · subst hu
      decide
    · rw [escapeLetter, if_neg hu, List.flatMap_singleton, escapeLetter, if_neg hu]
  rw [List.flatMap_assoc]
  exact List.flatMap_congr fun u _ => hletter u

theorem sampleUrl_serializesBack : SerializesBack sampleUrl := by
  intro input url h _
  have hprefix : (units "https://a.b/").isPrefixOf input = true := by
    by_contra hn
    rw [sampleUrl, if_neg hn] at h
    cases h
  obtain ⟨path, rfl⟩ := List.isPrefixOf_iff_prefix.mp hprefix
  rw [sampleUrl_path, Option.some.injEq] at h
  subst h
  change sampleUrl (units "https://a.b/" ++ path.flatMap escapeLetter) = some (hostUrl (path.flatMap escapeLetter))
  rw [sampleUrl_path, escapeLetter_again]

theorem sampleManifest_lists {outputs : List String} (houtputs : outputs = ["gtk", "gtk-doc"] ∨ outputs = ["gtk-doc", "gtk"]) :
    fitsLists (sampleManifest [] outputs) = true ∧ checkLists (sampleManifest [] outputs) = .ok () ∧
      sorted outputs = ["gtk", "gtk-doc"] ∧ sortGroups [["gtk"], ["gtk-doc"]] = [["gtk"], ["gtk-doc"]] ∧
      [Architecture.aarch64, .x86_64].insertionSort architectureLE = [.aarch64, .x86_64] := by
  rcases houtputs with rfl | rfl <;> decide +kernel

/-- What is made of the sample, which has nothing else to refuse. -/
theorem sampleManifest_ok {path : JsString} {outputs : List String} (hlength : path.length ≤ 2000)
    (houtputs : outputs = ["gtk", "gtk-doc"] ∨ outputs = ["gtk-doc", "gtk"]) :
    parseCatalogManifest sampleUrl (sampleManifest path outputs) =
      .ok (sampleManifest (path.flatMap escapeLetter) ["gtk", "gtk-doc"]) := by
  obtain ⟨hfits, hchecks, hsorted, hgroups, harchitectures⟩ := sampleManifest_lists houtputs
  have hurl : (units "https://a.b/" ++ path).length ≤ 2048 := by
    have hprefix : (units "https://a.b/").length = 12 := by decide
    rw [List.length_append]
    omega
  have htrimmed : trimmed (sampleManifest path outputs) = sampleManifest path outputs := by
    have hdescription : trim (units "A toolkit") = units "A toolkit" := by decide
    rw [trimmed, sampleManifest, hdescription]
    rfl
  have htexts : fitsTexts (sampleManifest path outputs) = true := by
    change (isName "gtk" && decide ((units "https://a.b/" ++ path).length ≤ 2048) &&
      (decide (1 ≤ (units "A toolkit").length) && decide ((units "A toolkit").length ≤ 500)) && true && true) = true
    rw [decide_eq_true hurl]
    decide
  have hpublic : isPublic (hostUrl (path.flatMap escapeLetter)) = true := by
    change isPublic (hostUrl []) = true
    decide
  have hlicense : declaredLicense (units "MIT") = .ok (units "MIT") := declaredLicense_ok.mpr (by decide)
  have hexternal : externalPackageSource sampleUrl (units "https://a.b/" ++ path.flatMap escapeLetter) = false := by
    rw [externalPackageSource, sampleUrl_path, Option.any_some]
    change (let host := toLowerCase (units "a.b")
      (host = "aur.archlinux.org".toList || host = "archlinuxarm.org".toList || ".archlinuxarm.org".toList.isSuffixOf host)) = false
    decide
  rw [parse_ok, htrimmed, htexts, Bool.true_and]
  refine ⟨hfits, normalize_ok.mpr ⟨_, _, none, publicSourceURL_ok.mpr ⟨_, sampleUrl_path path, hpublic, hurl, rfl⟩,
    hlicense, hexternal, rfl, hchecks, ?_⟩⟩
  have hparts : sortLists (rewritten (sampleManifest path outputs) (units "https://a.b/" ++ path.flatMap escapeLetter)
      (units "MIT") none) = { sampleManifest (path.flatMap escapeLetter) (sorted outputs) with
        runtimeGroups := some (sortGroups [["gtk"], ["gtk-doc"]])
        architectures := [Architecture.aarch64, .x86_64].insertionSort architectureLE } := rfl
  rw [hsorted, hgroups, harchitectures] at hparts
  exact hparts

theorem parse_idempotent_sample :
    (parseCatalogManifest sampleUrl (sampleManifest [] ["gtk", "gtk-doc"]) = .ok (sampleManifest [] ["gtk", "gtk-doc"]) ↔
      FitsAgain sampleUrl (sampleManifest [] ["gtk-doc", "gtk"])) ∧
      parseCatalogManifest sampleUrl (sampleManifest [] ["gtk-doc", "gtk"]) =
        parseCatalogManifest sampleUrl (sampleManifest [] ["gtk", "gtk-doc"]) := by
  obtain ⟨hagain, horder⟩ := parse_idempotent_iff sampleUrl_serializesBack
  refine ⟨hagain _ _ (sampleManifest_ok (Nat.zero_le _) (.inr rfl)), horder _ _ ?_⟩
  exact {
    rest := rfl
    outputs := .swap _ _ _
    architectures := .refl _
    portableOutputs := .none
    runtimeGroups := .some ⟨_, .refl _, List.forall₂_same.mpr fun _ _ => .refl _⟩
    rebuildOn := .refl _ }

/-- 400 letters that are escaped. -/
def grownPath : JsString := List.replicate 400 0xE9

theorem length_grownPath : grownPath.length = 400 := List.length_replicate

theorem length_grownPath_escaped : (grownPath.flatMap escapeLetter).length = 2400 := by
  have hletter : (escapeLetter 0xE9).length = 6 := by decide
  rw [grownPath, List.flatMap_replicate, List.length_flatten, List.map_replicate, hletter, List.sum_replicate_nat]

/-- The text has 412 units and the URL 2412, which nobody can have parsed again. -/
theorem grown_refused : SerializesBack sampleUrl ∧
    ∃ m, parseCatalogManifest sampleUrl (sampleManifest grownPath ["gtk", "gtk-doc"]) = .ok m ∧ parseCatalogManifest sampleUrl m =
      reject "Invalid catalog manifest. Check package identity, ownership, source and architecture fields." 400 := by
  have hlength : grownPath.length ≤ 2000 := by
    rw [length_grownPath]
    decide
  refine ⟨sampleUrl_serializesBack, _, sampleManifest_ok hlength (.inl rfl), ?_⟩
  have hlong : ¬(units "https://a.b/" ++ grownPath.flatMap escapeLetter).length ≤ 2048 := by
    rw [List.length_append, length_grownPath_escaped]
    omega
  have htexts : fitsTexts (trimmed (sampleManifest (grownPath.flatMap escapeLetter) ["gtk", "gtk-doc"])) = false := by
    unfold fitsTexts
    have hurl : (trimmed (sampleManifest (grownPath.flatMap escapeLetter) ["gtk", "gtk-doc"])).upstreamUrl =
        units "https://a.b/" ++ grownPath.flatMap escapeLetter := rfl
    rw [hurl, decide_eq_false hlong, Bool.and_false, Bool.false_and, Bool.false_and, Bool.false_and]
  rw [parseCatalogManifest, htexts, Bool.false_and, if_pos rfl]

end Omapkg.Server.Catalog
