import Mathlib.Data.String.Basic
import Omapkg.Lib.Fallible
import Omapkg.Lib.Sorting
import Omapkg.Server.CanonicalText
/-!
# Outputs of a reproducibility report

`parseReproducibility` of `src/src/lib/server/native-qualification.ts` sorts the outputs of an
attempt with `localeCompare`; `actualReproducibility` compares their text with that of the rows
of `build_artifacts`, which SQLite sorts by their bytes.
-/

namespace Omapkg.Server.NativeEvidence

open Utf Json

structure ReproducibilityOutput where
  filename : String
  sha256 : String
  deriving DecidableEq

def ReproducibilityOutput.json (o : ReproducibilityOutput) : Json JsString :=
  .obj [(units "filename", .str (units o.filename)), (units "sha256", .str (units o.sha256))]

/-- `digest`. -/
def isDigest (value : String) : Bool := value.length = 64 && value.toList.all fun c => c.isDigit || ('a' ≤ c && c ≤ 'f')

/-- What `text` lets through. -/
def isText (maximum : Nat) (value : String) : Bool :=
  value ≠ "" && (units value).length ≤ maximum && value.toList.all fun c => 32 ≤ c.toNat && c.toNat ≠ 127

def require (passes : Bool) (field : String) : Except String Unit :=
  if passes = false then .error ("Invalid " ++ field ++ ".") else .ok ()

theorem require_ok {passes : Bool} {field : String} : require passes field = .ok () ↔ passes = true := by
  unfold require
  rw [Fallible.guard_ok]
  simp

def parseOutput (output : ReproducibilityOutput) : Except String Unit := do
  require (isText 256 output.filename) "output filename"
  require (isDigest output.sha256) "output digest"

section
variable (collate : String → String → Bool)

def sortOutputs (outputs : List ReproducibilityOutput) : List ReproducibilityOutput :=
  outputs.insertionSort fun a b => collate a.filename b.filename

/-- The outputs of an attempt, as `parseAttempt` keeps them. -/
def parseOutputs (outputs : List ReproducibilityOutput) : Except String (List ReproducibilityOutput) :=
  if 256 < outputs.length then .error "Invalid reproducibility outputs."
  else do
    outputs.forM parseOutput
    return sortOutputs collate outputs

/-- `SELECT filename,sha256,… FROM build_artifacts … ORDER BY filename`. -/
def actualOutputs (registered : List ReproducibilityOutput) : List ReproducibilityOutput :=
  registered.insertionSort fun a b => a.filename ≤ b.filename

def outputsText (outputs : List ReproducibilityOutput) : List Char := canonicalJson (.arr (outputs.map (·.json)))

def compareOutputs (actual expected : List ReproducibilityOutput) : Except String Unit :=
  if outputsText actual ≠ outputsText expected then
    .error "Reproducibility output bytes do not match retained attempt artifacts."
  else .ok ()

/-! ## The comparison -/

/-- What a report may tell of: as many outputs as are read, each with a name and a digest that is. -/
def Reportable (registered : List ReproducibilityOutput) : Prop :=
  registered.length ≤ 256 ∧ ∀ o ∈ registered, isText 256 o.filename = true ∧ isDigest o.sha256 = true

/-- Every report of the registered outputs, in any order, passes the comparison if it is read. -/
def TruthfulPass (registered : List ReproducibilityOutput) : Prop :=
  ∀ outputs : List ReproducibilityOutput, outputs.Perm registered → ∀ expected, parseOutputs collate outputs = .ok expected →
    compareOutputs (actualOutputs registered) expected = .ok ()

/-- `localeCompare` sorts the filenames as their bytes do. -/
def SameOrder (registered : List ReproducibilityOutput) : Prop :=
  ∀ a ∈ registered, ∀ b ∈ registered, a.filename < b.filename →
    collate a.filename b.filename = true ∧ collate b.filename a.filename = false

end

theorem canonicalValue_output (o : ReproducibilityOutput) : canonicalValue o.json = o.json := by
  have hplain : PlainKeys [units "filename", units "sha256"] := by decide
  have horder : KeyLE (units "filename") (units "sha256") := by decide
  rw [ReproducibilityOutput.json, canonicalValue_obj (by exact hplain)]
  simp only [canonicalMembers, canonicalValue, sortKeys, List.insertionSort_cons, List.insertionSort_nil,
    List.orderedInsert_nil, List.orderedInsert_cons, horder, if_true]

theorem json_injective : Function.Injective ReproducibilityOutput.json := by
  rintro ⟨f, d⟩ ⟨f', d'⟩ h
  simp only [ReproducibilityOutput.json, Json.obj.injEq, List.cons.injEq, Prod.mk.injEq, Json.str.injEq, true_and,
    and_true] at h
  rw [units_injective h.1, units_injective h.2]

/-- The text of a list of outputs tells them, and their order. -/
theorem outputsText_injective : Function.Injective outputsText := by
  intro a b h
  have hvalues := print_inj reads_jsQuote readsBack_jsQuote h
  simp only [canonicalValue, Json.arr.injEq, canonicalElems_eq, List.map_map] at hvalues
  have hjson (o : ReproducibilityOutput) : (canonicalValue ∘ ReproducibilityOutput.json) o = o.json := canonicalValue_output o
  rw [List.map_congr_left fun o _ => hjson o, List.map_congr_left fun o _ => hjson o] at hvalues
  exact List.map_injective_iff.mpr json_injective hvalues

theorem compareOutputs_ok {actual expected : List ReproducibilityOutput} :
    compareOutputs actual expected = .ok () ↔ actual = expected := by
  unfold compareOutputs
  rw [Fallible.guard_ok, not_not, outputsText_injective.eq_iff]
  simp

section
variable {collate : String → String → Bool} {registered : List ReproducibilityOutput}

theorem parseOutputs_ok {outputs expected : List ReproducibilityOutput} :
    parseOutputs collate outputs = .ok expected ↔ Reportable outputs ∧ sortOutputs collate outputs = expected := by
  unfold parseOutputs Reportable
  rw [Fallible.guard_ok, Nat.not_lt, and_assoc]
  have hone (o : ReproducibilityOutput) :
      parseOutput o = .ok () ↔ isText 256 o.filename = true ∧ isDigest o.sha256 = true := by
    unfold parseOutput
    rw [Fallible.bind_ok]
    constructor
    · rintro ⟨⟨⟩, hname, hdigest⟩
      exact ⟨require_ok.mp hname, require_ok.mp hdigest⟩
    · rintro ⟨hname, hdigest⟩
      exact ⟨(), require_ok.mpr hname, require_ok.mpr hdigest⟩
  refine and_congr_right fun _ => ?_
  rw [Fallible.bind_ok]
  constructor
  · rintro ⟨⟨⟩, hall, h⟩
    exact ⟨fun o ho => (hone o).mp (Fallible.forM_ok.mp hall o ho), Except.ok.inj h⟩
  · rintro ⟨hall, rfl⟩
    exact ⟨(), Fallible.forM_ok.mpr fun o ho => (hone o).mpr (hall o ho), rfl⟩

theorem reportable_perm {outputs : List ReproducibilityOutput} (h : outputs.Perm registered) :
    Reportable outputs ↔ Reportable registered := by
  unfold Reportable
  rw [h.length_eq]
  simp only [h.mem_iff]

/-- Registered outputs of different names come in the strict order of these. -/
theorem actualOutputs_pairwise (hnames : (registered.map (·.filename)).Nodup) :
    (actualOutputs registered).Pairwise fun a b => a.filename < b.filename := by
  have : Std.Total fun a b : ReproducibilityOutput => a.filename ≤ b.filename := ⟨fun a b => le_total a.filename b.filename⟩
  have : IsTrans ReproducibilityOutput fun a b => a.filename ≤ b.filename := ⟨fun _ _ _ => le_trans⟩
  have hsorted := List.pairwise_insertionSort (fun a b : ReproducibilityOutput => a.filename ≤ b.filename) registered
  have hnodup := ((List.perm_insertionSort (fun a b : ReproducibilityOutput => a.filename ≤ b.filename) registered).map
    (·.filename)).nodup_iff.mpr hnames
  rw [List.Nodup, List.pairwise_map] at hnodup
  exact (hsorted.and hnodup).imp fun hab => lt_of_le_of_ne hab.1 hab.2

/-- What `localeCompare` is relied on for: any two names compare, and consistently. -/
structure Collates (collate : String → String → Bool) : Prop where
  total : ∀ a b, collate a b = true ∨ collate b a = true
  trans : ∀ a b c, collate a b = true → collate b c = true → collate a c = true

/-- The reports of an attempt pass, whatever their order, just if both orders of its filenames are the same. -/
theorem truthfulPass_iff (hcollate : Collates collate) (hnames : (registered.map (·.filename)).Nodup) :
    TruthfulPass collate registered ↔ (Reportable registered → SameOrder collate registered) := by
  have : Std.Total fun a b : ReproducibilityOutput => collate a.filename b.filename = true := ⟨fun _ _ => hcollate.total _ _⟩
  have : IsTrans ReproducibilityOutput fun a b => collate a.filename b.filename = true := ⟨fun _ _ _ => hcollate.trans _ _ _⟩
  have hperm : (actualOutputs registered).Perm registered := List.perm_insertionSort _ _
  have hactual := actualOutputs_pairwise hnames
  have hpass : TruthfulPass collate registered ↔
      (Reportable registered → ∀ m : List ReproducibilityOutput, m.Perm (actualOutputs registered) →
        sortOutputs collate m = actualOutputs registered) := by
    unfold TruthfulPass
    constructor
    · intro h hreportable m hm
      have hread := (reportable_perm (hm.trans hperm)).mpr hreportable
      exact (compareOutputs_ok.mp (h m (hm.trans hperm) _ (parseOutputs_ok.mpr ⟨hread, rfl⟩))).symm
    · intro h outputs houtputs expected hexpected
      obtain ⟨hread, rfl⟩ := parseOutputs_ok.mp hexpected
      exact compareOutputs_ok.mpr (h ((reportable_perm houtputs).mp hread) outputs (houtputs.trans hperm.symm)).symm
  rw [hpass]
  refine imp_congr_right fun _ => ?_
  unfold sortOutputs
  rw [Sorting.insertionSort_perms_iff hactual fun a b hab => lt_asymm hab]
  constructor
  · intro h a ha b hb hab
    have hpair : a ≠ b → collate a.filename b.filename = true ∧ ¬collate b.filename a.filename = true ∨ b.filename < a.filename := by
      refine List.Pairwise.forall_of_forall_of_flip (R := fun a b : ReproducibilityOutput =>
        a ≠ b → collate a.filename b.filename = true ∧ ¬collate b.filename a.filename = true ∨ b.filename < a.filename)
        (fun a _ hne => absurd rfl hne) (h.imp fun hab _ => .inl hab) (hactual.imp fun hab _ => .inr hab)
        (hperm.mem_iff.mpr ha) (hperm.mem_iff.mpr hb)
    rcases hpair (fun heq => lt_irrefl _ (heq ▸ hab)) with hcase | hcase
    · exact ⟨hcase.1, by simpa using hcase.2⟩
    · exact absurd hcase (lt_asymm hab)
  · intro h
    refine hactual.imp_of_mem fun ha hb hab => ?_
    obtain ⟨h1, h2⟩ := h _ (hperm.mem_iff.mp ha) _ (hperm.mem_iff.mp hb) hab
    exact ⟨h1, by simp [h2]⟩

end

end Omapkg.Server.NativeEvidence
