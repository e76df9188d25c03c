import Omapkg.Lib.Fallible
import Omapkg.Server.Reproducibility
import Omapkg.Wire.Canonical
import Omapkg.Worker.Reproducibility
/-!
# The worker's contract before the server

When the server accepts the contract that the worker puts in the provenance of
a build. The two make the same digests from texts of two encoders: they sort
members alike (`received_units`), and spell a value alike exactly when none of
its strings has a character that only `json.Marshal` escapes
(`canonicalText_eq_iff`).
-/

namespace Omapkg.Wire

open Json Utf Omapkg.Server Omapkg.Server.Evidence Omapkg.Worker
open Omapkg.Client (goEscape goValue goElems goElems_eq goMembers_spec htmlEscape htmlQuote reads_htmlQuote)

/-! ## Texts -/

mutual
/-- The server sorts a decoded value as the worker's encoder does. -/
theorem received_units : ∀ v : Json String, Plain (v.map units) → received (v.map units) = goValue v
  | .null, _ => rfl
  | .bool _, _ => rfl
  | .num _, _ => rfl
  | .str s, _ => by rw [Json.map, received_str, toText_units, goValue]
  | .arr xs, h => by
    rw [Json.map, received_arr, mapElems_eq, List.map_map, goValue]
    exact congrArg _ (received_elems_units xs h)
  | .obj ms, ⟨hk, hm⟩ => by
    rw [Json.map, received_obj hk, goValue]
    have hkeys : (mapMembers units ms).map Prod.fst = (ms.map Prod.fst).map units := by
      rw [mapMembers_eq, List.map_map, List.map_map]; rfl
    have hn : (ms.map Prod.fst).Nodup := List.Nodup.of_map units (hkeys ▸ hk.1)
    obtain ⟨hperm, hpair⟩ := goMembers_spec ms [] .nil hn
    have hasc := (ascending_canonicalValue _ (show Plain (.obj (mapMembers units ms)) from ⟨hk, hm⟩))
    rw [show (canonicalValue (.obj (mapMembers units ms))).map toText = received _ from rfl, received_obj hk] at hasc
    have hrec : (receivedObject (mapMembers units ms)).Perm (ms.map fun e => (e.1, goValue e.2)) := by
      rw [receivedObject]
      refine ((sortKeys_perm _).map _).trans ?_
      rw [canonicalMembers_eq, List.map_map, mapMembers_eq, List.map_map]
      exact .of_eq (received_members_units ms hm)
    refine congrArg _ ((hrec.trans hperm.symm).eq_of_pairwise (fun a b _ _ h1 h2 => ?_) hasc.1 hpair)
    exact absurd h1 (lt_asymm h2)

theorem received_elems_units : ∀ xs : List (Json String), PlainElems (mapElems units xs) →
    xs.map (received ∘ Json.map units) = goElems xs
  | [], _ => rfl
  | x :: xs, ⟨hx, hxs⟩ => by
    rw [List.map_cons, goElems, received_elems_units xs hxs, Function.comp_apply, received_units x hx]

theorem received_members_units : ∀ ms : List (String × Json String), PlainMembers (mapMembers units ms) →
    ms.map (((fun m => (toText m.1, m.2.map toText)) ∘ fun m => (m.1, canonicalValue m.2)) ∘
      fun m => (units m.1, m.2.map units)) = ms.map fun e => (e.1, goValue e.2)
  | [], _ => rfl
  | (k, v) :: ms, ⟨hv, hms⟩ => by
    rw [List.map_cons, List.map_cons, received_members_units ms hms]
    simp only [Function.comp_apply, toText_units]
    rw [show (canonicalValue (v.map units)).map toText = received (v.map units) from rfl, received_units v hv]
end

/-- A character that `json.Marshal` writes as `JSON.stringify` does. -/
def PlainChar (c : Char) : Prop := c ∉ ['<', '>', '&', '\u2028', '\u2029']

instance : DecidablePred PlainChar := fun c => inferInstanceAs (Decidable (c ∉ _))

def PlainText (s : String) : Prop := ∀ c ∈ s.toList, PlainChar c

instance : DecidablePred PlainText := fun s => List.decidableBAll _ s.toList

def PlainPoint : CodePoint → Prop
  | .scalar c => PlainChar c
  | .lone _ => False

theorem htmlEscape_same {cp : CodePoint} (h : PlainPoint cp) : jsEscape cp = htmlEscape cp.char := by
  cases cp with
  | scalar c =>
    simp only [PlainPoint, PlainChar, List.mem_cons, List.not_mem_nil, or_false, not_or] at h
    obtain ⟨h1, h2, h3, h4, h5⟩ := h
    simp only [jsEscape, CodePoint.char, htmlEscape, goEscape, h1, h2, h3, h4, h5, or_self, if_false]
  | lone u => exact h.elim

theorem htmlEscape_differ {cp : CodePoint} {t t' : List Char} (h : jsEscape cp ++ t = htmlEscape cp.char ++ t') :
    PlainPoint cp := by
  cases cp with
  | scalar c =>
    intro hc
    simp only [List.mem_cons, List.not_mem_nil, or_false] at hc
    have hraw : escapeChar c = [c] := by rcases hc with rfl | rfl | rfl | rfl | rfl <;> decide
    have hesc : htmlEscape c = unitEscape c.toNat := by rcases hc with rfl | rfl | rfl | rfl | rfl <;> decide
    have hne : c ≠ '\\' := by rcases hc with rfl | rfl | rfl | rfl | rfl <;> decide
    simp only [jsEscape, CodePoint.char, hraw, hesc, unitEscape, List.cons_append] at h
    exact hne (List.cons.inj h).1
  | lone u =>
    have hraw : htmlEscape '\uFFFD' = ['\uFFFD'] := by decide
    simp only [jsEscape, CodePoint.char, hraw, unitEscape, List.cons_append] at h
    exact absurd (List.cons.inj h).1 (by decide)

theorem spells_html : Spells jsQuote htmlQuote toText fun s => ∀ cp ∈ codePoints s, PlainPoint cp :=
  spells_points (fun _ h => htmlEscape_same h) fun _ _ _ h => htmlEscape_differ h

theorem plainPoint_units (s : String) : (∀ cp ∈ codePoints (units s), PlainPoint cp) ↔ PlainText s := by
  rw [codePoints_units, List.forall_mem_map]
  rfl

/-- The text of a value without repeated or peculiar names. -/
theorem canonicalText_eq_iff {v : Json String} (h : Plain (v.map units)) (w : Json String) :
    canonicalText v = canonicalReproJSON w ↔ goValue v = goValue w ∧ v.AllStr PlainText := by
  have hstr : (canonicalValue (v.map units)).print jsQuote = (received (v.map units)).print htmlQuote ↔
      v.AllStr PlainText := by
    rw [received, print_eq_iff spells_html, allStr_canonicalValue _ h, allStr_map]
    simp only [plainPoint_units]
  rw [received_units v h] at hstr
  rw [canonicalText, canonicalJson, canonicalReproJSON]
  constructor
  · intro he
    -- both texts are read back, to one value
    have hjs := parse_print reads_jsQuote (canonicalValue (v.map units)) (Nat.le_max_left _ (goValue w).depth) stops_nil
    have hgo := parse_print reads_htmlQuote (goValue w) (Nat.le_max_right (canonicalValue (v.map units)).depth _) stops_nil
    have hdec : String.ofList ∘ (fun s => (toText s).toList) = toText := by
      funext s; exact String.ofList_toList
    have hid : String.ofList ∘ String.toList = id := by
      funext s; exact String.ofList_toList
    rw [he, hgo, hdec, hid, map_id] at hjs
    have hval : goValue v = goValue w := by
      rw [← received_units v h]
      exact (congrArg Prod.fst (Option.some.inj hjs)).symm
    refine ⟨hval, hstr.mp ?_⟩
    rw [he, hval]
  · rintro ⟨hval, hplain⟩
    rw [hstr.mpr hplain, hval]

/-! ## Digests -/

/-- Two texts with one digest, whatever the digest, are one text. -/
theorem digest_eq_iff (a b : List Char) :
    (∀ sha256 : Bytes → Hash.Digest, (sha256 (encode a)).hex = (sha256 (encode b)).hex) ↔ a = b := by
  refine ⟨fun h => ?_, fun h _ => by rw [h]⟩
  by_contra hne
  have henc : encode b ≠ encode a := fun he => hne (encode_injective he).symm
  have hsep := h fun text => if text = encode a then .zero else ⟨List.replicate 32 1, rfl⟩
  simp only [if_true, henc, if_false] at hsep
  exact absurd hsep (by decide)

/-! ## The provenance -/

/-- What the provenance of a job says. -/
def expectation (job : Job) : ReproducibilityExpectation where
  architecture := job.architecture
  recipeSha256 := job.recipeSha256
  imageDigest := job.imageDigest
  sourceDateEpoch := job.sourceDateEpoch
  -- `append([]Source{}, job.Sources...)` is never nil
  sources := sliceJson Source.json (some (job.sources.getD []))
  inputLockSha256 := job.inputLock.getD ""
  dependencyPlan := job.dependencyPlan.map DependencyPlan.json
  factoryRunId := if job.factoryRunId = "" then none else some job.factoryRunId
  factoryAttempt := if job.factoryRunId = "" then none else some job.factoryAttempt
  factoryInputSha256 := if job.factoryRunId = "" then none else some job.factoryInputSha256

def reported (outputs : List ReproducibilityOutput) : List (String × String) :=
  outputs.map fun o => (o.filename, o.sha256.hex)

/-- Every inspection was made, and found nothing. -/
def performed : SingleBuildObservation := ⟨true, true, true, [], []⟩

def outputFile (o : ReproducibilityOutput) : EvidenceFile := ⟨o.filename, o.size, o.sha256.hex⟩

/-- The two encoders make the same of a job and its outputs. -/
structure Agrees (collate : String → String → Bool) (job : Job) (outputs : List ReproducibilityOutput)
    (filenames : List String) : Prop where
  sources : ∃ sources, job.sources = some sources ∧
    ∀ s ∈ sources, PlainText s.name ∧ PlainText s.url ∧ PlainText s.sha256
  plan : ∀ plan, job.dependencyPlan = some plan → plan.json.AllStr PlainText
  sizes : ∀ o ∈ outputs, 0 < o.size ∧ o.size ≤ 9007199254740991
  order : (outputs.map outputFile).insertionSort (fun a b => collate a.filename b.filename) = outputs.map outputFile
  outputs : ∀ o ∈ outputs, PlainText o.filename ∧ o.filename ∈ filenames

/-! ## The digests agree -/

theorem plain_sources (sources : Option (List Source)) : Plain ((sliceJson Source.json sources).map units) := by
  cases sources with
  | none => trivial
  | some sources =>
    rw [sliceJson, Json.map, Plain, plainElems_iff, mapElems_eq, List.map_map]
    intro x hx
    obtain ⟨s, -, rfl⟩ := List.mem_map.mp hx
    refine ⟨?_, trivial, trivial, trivial, trivial⟩
    simp only [mapMembers, List.map_cons, List.map_nil]
    decide

theorem sources_text (job : Job) :
    canonicalText (expectation job).sources = canonicalReproJSON (sliceJson Source.json job.sources) ↔
      ∃ sources, job.sources = some sources ∧
        ∀ s ∈ sources, PlainText s.name ∧ PlainText s.url ∧ PlainText s.sha256 := by
  rw [show (expectation job).sources = sliceJson Source.json (some (job.sources.getD [])) from rfl,
    canonicalText_eq_iff (plain_sources _)]
  have hkeys : PlainText "name" ∧ PlainText "url" ∧ PlainText "sha256" := by decide
  cases hs : job.sources with
  | none => simp [sliceJson, goValue]
  | some sources =>
    simp only [Option.getD_some, true_and, Option.some.injEq, exists_eq_left']
    rw [sliceJson, AllStr, allElems_iff, List.forall_mem_map]
    simp [Source.json, AllStr, AllMembers, hkeys]

theorem plain_plan (plan : DependencyPlan) : Plain (plan.json.map units) := by
  have hpackages : PlainElems (mapElems units (plan.packages.map DependencyPackage.json)) := by
    rw [plainElems_iff, mapElems_eq, List.map_map]
    intro x hx
    obtain ⟨p, -, rfl⟩ := List.mem_map.mp hx
    refine ⟨?_, by simp [mapMembers, PlainMembers, Json.map, Plain, jsonNat]⟩
    simp only [mapMembers, List.map_cons, List.map_nil]
    decide
  have hids : ∀ ids : List String, PlainElems (mapElems units (ids.map .str)) := by
    intro ids
    rw [plainElems_iff, mapElems_eq, List.map_map]
    intro x hx
    obtain ⟨s, -, rfl⟩ := List.mem_map.mp hx
    trivial
  rw [DependencyPlan.json]
  cases plan.runtimeReleaseIds with
  | none =>
    refine ⟨?_, trivial, trivial, trivial, hpackages, trivial⟩
    simp only [Option.map_none, Option.toList_none, List.append_nil, mapMembers, List.map_cons, List.map_nil]
    decide
  | some ids =>
    refine ⟨?_, trivial, trivial, trivial, hpackages, hids ids, trivial⟩
    simp only [Option.map_some, Option.toList_some, List.cons_append, List.nil_append, mapMembers, List.map_cons,
      List.map_nil]
    decide

theorem plain_files (files : List EvidenceFile) : Plain ((Json.arr (files.map EvidenceFile.json)).map units) := by
  rw [Json.map, Plain, plainElems_iff, mapElems_eq, List.map_map]
  intro x hx
  obtain ⟨f, -, rfl⟩ := List.mem_map.mp hx
  refine ⟨?_, trivial, trivial, trivial, trivial⟩
  simp only [mapMembers, List.map_cons, List.map_nil]
  decide

theorem goValue_file (f : EvidenceFile) : goValue f.json =
    .obj [("filename", .str f.filename), ("sha256", .str f.sha256), ("size", .num (.ofNat f.size))] := by
  rfl

theorem goValue_file_inj {f g : EvidenceFile} (h : goValue f.json = goValue g.json) : f = g := by
  rw [goValue_file, goValue_file] at h
  injection h with h
  injection h with h1 h
  injection h with h2 h
  injection h with h3 h
  injection h1 with _ h1
  injection h2 with _ h2
  injection h3 with _ h3
  injection h1 with h1
  injection h2 with h2
  injection h3 with h3
  obtain ⟨_, _, _⟩ := f
  obtain ⟨_, _, _⟩ := g
  simp only at h1 h2 h3
  rw [h1, h2, Numeral.ofNat_inj h3]

theorem outputs_text (files : List EvidenceFile) (outputs : List ReproducibilityOutput) :
    canonicalText (.arr (files.map EvidenceFile.json)) = canonicalReproJSON (outputDigestValues outputs) ↔
      files = outputs.map outputFile ∧ ∀ o ∈ outputs, PlainText o.filename := by
  have hkeys : PlainText "filename" ∧ PlainText "size" ∧ PlainText "sha256" := by decide
  have hhex : ∀ d : Hash.Digest, PlainText d.hex := fun d c hc => by
    have hall := (Bool.and_eq_true_iff.mp (Hash.isHexDigest_hex d)).2
    have hlow := List.all_eq_true.mp hall c hc
    intro hm
    simp only [List.mem_cons, List.not_mem_nil, or_false] at hm
    rcases hm with rfl | rfl | rfl | rfl | rfl <;> exact absurd hlow (by decide)
  rw [canonicalText_eq_iff (plain_files files)]
  have hval : goValue (outputDigestValues outputs) = .arr ((outputs.map outputFile).map fun f => goValue f.json) := by
    rw [outputDigestValues, goValue, goElems_eq, List.map_map, List.map_map]
    rfl
  have hfiles : goValue (.arr (files.map EvidenceFile.json)) = .arr (files.map fun f => goValue f.json) := by
    rw [goValue, goElems_eq, List.map_map]
    rfl
  have hinj : Function.Injective fun f : EvidenceFile => goValue f.json := fun f g h => goValue_file_inj h
  rw [hval, hfiles, Json.arr.injEq, (List.map_injective_iff.mpr hinj).eq_iff]
  refine and_congr_right fun he => ?_
  rw [he, AllStr, allElems_iff, List.forall_mem_map, List.forall_mem_map]
  refine forall₂_congr fun o _ => ?_
  simp [EvidenceFile.json, outputFile, AllStr, AllMembers, hkeys, hhex]

/-! ## The contract -/

section
variable (sha256 : Bytes → Hash.Digest) (collate : String → String → Bool) (job : Job)
  (outputs : List ReproducibilityOutput)

theorem hasKeys_contract : hasKeys ["schemaVersion", "status", "mode", "target", "inputs", "controls", "outputs",
    "limitations"] ["execution"] (singleBuildContract sha256 job outputs (some performed)) = true := by
  rw [singleBuildContract]
  split <;> rfl

theorem isHeader_contract :
    isHeader (singleBuildContract sha256 job outputs (some performed)) (expectation job) = true := by
  rw [singleBuildContract]
  split <;> simp [isHeader, property, isNumber, isText, jsonNat, expectation]

theorem isExecution_contract :
    isExecution (singleBuildContract sha256 job outputs (some performed)) (expectation job) = true := by
  rw [singleBuildContract]
  split
  · rename_i h
    simp [isExecution, expectation, h, property, executionJson, hasKeys, isText, isNumber, jsonNat]
  · rename_i h
    simp [isExecution, expectation, not_not.mp h]

theorem property_contract :
    property "inputs" (singleBuildContract sha256 job outputs (some performed)) = some (inputsJson sha256 job) ∧
    property "controls" (singleBuildContract sha256 job outputs (some performed)) =
      some (controlsJson job (some performed)) ∧
    property "outputs" (singleBuildContract sha256 job outputs (some performed)) =
      some (outputsJson sha256 outputs (some performed)) ∧
    property "limitations" (singleBuildContract sha256 job outputs (some performed)) = some limitationsJson := by
  rw [singleBuildContract]
  split <;> simp [property]

theorem isControls_contract : isControls (expectation job) (controlsJson job (some performed)) = true := by
  simp [isControls, controlsJson, hasKeys, property, isText, isBool, performed, expectation]

theorem isInputs_contract : isInputs ⟨sha256, collate⟩ (expectation job) (inputsJson sha256 job) = true ↔
    hashText sha256 (canonicalReproJSON (sliceJson Source.json job.sources)) =
        hashText sha256 (canonicalText (expectation job).sources) ∧
      ∀ plan, job.dependencyPlan = some plan →
        hashText sha256 (canonicalReproJSON plan.json) = hashText sha256 (canonicalText plan.json) := by
  cases hp : job.dependencyPlan with
  | none =>
    simp [isInputs, inputsJson, hasKeys, property, isText, isNumber, jsonNat, expectation, Job.dependencyPlanSha256,
      dependencyPlanSha256, hp, EvidenceEnv.digest, hashText]
  | some plan =>
    simp [isInputs, inputsJson, hasKeys, property, isText, isNumber, jsonNat, expectation, Job.dependencyPlanSha256,
      dependencyPlanSha256, hp, EvidenceEnv.digest, hashText]

theorem readFile_output (o : ReproducibilityOutput) : readFile o.json =
    if 0 < o.size ∧ o.size ≤ 9007199254740991 then .ok (outputFile o)
    else .error "Invalid single-build reproducibility output" := by
  have hsize : safeSize (.ofNat o.size) = if 0 < o.size ∧ o.size ≤ 9007199254740991 then some o.size else none := by
    have htext : Nat.ofDigitChars 10 (Numeral.ofNat o.size).text 0 = o.size := Nat.ofDigitChars_ten_toDigits
    rw [safeSize, htext]
    simp only [true_and]
  have hprop : property "filename" o.json = some (.str o.filename) ∧
      property "size" o.json = some (.num (.ofNat o.size)) ∧ property "sha256" o.json = some (.str o.sha256.hex) := by
    simp [property, ReproducibilityOutput.json, jsonNat]
  have hkeys : hasKeys ["filename", "size", "sha256"] [] o.json = true := by
    simp [hasKeys, ReproducibilityOutput.json]
  rw [readFile, hkeys, hprop.1, hprop.2.1, hprop.2.2]
  simp only [reduceCtorEq, if_false, hsize]
  by_cases h : 0 < o.size ∧ o.size ≤ 9007199254740991
  · simp only [h, and_self, if_true, Hash.isHexDigest_hex]
    rfl
  · simp only [h, if_false]

theorem readFiles {files : List EvidenceFile} : (outputs.map ReproducibilityOutput.json).mapM readFile = .ok files ↔
    (∀ o ∈ outputs, 0 < o.size ∧ o.size ≤ 9007199254740991) ∧ outputs.map outputFile = files := by
  rw [List.mapM_map, show readFile ∘ ReproducibilityOutput.json = _ from funext readFile_output]
  exact Fallible.mapM_checked

/-- The files that the server takes from the contract's outputs. -/
def sortedFiles : List EvidenceFile := (outputs.map outputFile).insertionSort fun a b => collate a.filename b.filename

theorem readOutputs_contract {files : List EvidenceFile} :
    readOutputs ⟨sha256, collate⟩ (outputsJson sha256 outputs (some performed)) = .ok files ↔
      (∀ o ∈ outputs, 0 < o.size ∧ o.size ≤ 9007199254740991) ∧
        hashText sha256 (canonicalReproJSON (outputDigestValues outputs)) =
          hashText sha256 (canonicalText (.arr ((sortedFiles collate outputs).map EvidenceFile.json))) ∧
        sortedFiles collate outputs = files := by
  have hkeys : hasKeys ["setSha256", "files", "unexpected", "prohibitedPaths"] []
      (outputsJson sha256 outputs (some performed)) = true := by
    simp [hasKeys, outputsJson]
  have hprop : property "unexpected" (outputsJson sha256 outputs (some performed)) = some (.arr []) ∧
      property "prohibitedPaths" (outputsJson sha256 outputs (some performed)) = some (.arr []) ∧
      property "files" (outputsJson sha256 outputs (some performed)) =
        some (.arr (outputs.map ReproducibilityOutput.json)) ∧
      property "setSha256" (outputsJson sha256 outputs (some performed)) =
        some (.str (hashText sha256 (canonicalReproJSON (outputDigestValues outputs)))) := by
    simp [property, outputsJson, performed]
  obtain ⟨h1, h2, h3, h4⟩ := hprop
  rw [readOutputs, hkeys, h1, h2, h3, h4]
  simp only [reduceCtorEq, if_false, isEmptyList, or_self, Fallible.bind_ok, readFiles, Fallible.guard_ok,
    Bool.not_eq_false, Except.ok.injEq]
  simp only [isText, decide_eq_true_eq]
  constructor
  · rintro ⟨read, ⟨hsizes, rfl⟩, hset, hfiles⟩
    exact ⟨hsizes, hset, hfiles⟩
  · rintro ⟨hsizes, hset, hfiles⟩
    exact ⟨outputs.map outputFile, ⟨hsizes, rfl⟩, hset, hfiles⟩

theorem validate_contract {files : List EvidenceFile} :
    validateReproducibilityContract ⟨sha256, collate⟩ (singleBuildContract sha256 job outputs (some performed))
        (expectation job) = .ok files ↔
      isInputs ⟨sha256, collate⟩ (expectation job) (inputsJson sha256 job) = true ∧
        readOutputs ⟨sha256, collate⟩ (outputsJson sha256 outputs (some performed)) = .ok files := by
  obtain ⟨hin, hcon, hout, hlim⟩ := property_contract sha256 job outputs
  rw [validateReproducibilityContract, hasKeys_contract, isHeader_contract, isExecution_contract, hin, hcon, hout, hlim]
  have hlimitations : isLimitations (some limitationsJson) = true := rfl
  simp only [reduceCtorEq, if_false, Fallible.guard_ok, Fallible.bind_ok, isControls_contract, hlimitations,
    Bool.not_eq_false, Except.ok.injEq, exists_eq_right]

theorem assert_contract (filenames : List String) :
    assertReproducibilityContract ⟨sha256, collate⟩ (singleBuildContract sha256 job outputs (some performed))
        (expectation job) (reported outputs) filenames = .ok () ↔
      isInputs ⟨sha256, collate⟩ (expectation job) (inputsJson sha256 job) = true ∧
        (∀ o ∈ outputs, 0 < o.size ∧ o.size ≤ 9007199254740991) ∧
        hashText sha256 (canonicalReproJSON (outputDigestValues outputs)) =
          hashText sha256 (canonicalText (.arr ((sortedFiles collate outputs).map EvidenceFile.json))) ∧
        ∀ o ∈ outputs, o.filename ∈ filenames := by
  have hreported : (reported outputs).insertionSort (fun a b => collate a.1 b.1) =
      (sortedFiles collate outputs).map fun f => (f.filename, f.sha256) := by
    rw [sortedFiles, reported, ← List.map_insertionSort (fun a b : ReproducibilityOutput => collate a.filename b.filename)
      (fun a b : String × String => collate a.1 b.1) _ _ fun _ _ _ _ => Iff.rfl,
      ← List.map_insertionSort (fun a b : ReproducibilityOutput => collate a.filename b.filename)
      (fun a b : EvidenceFile => collate a.filename b.filename) _ _ fun _ _ _ _ => Iff.rfl, List.map_map]
    rfl
  have hnames : (∃ f ∈ sortedFiles collate outputs, f.filename ∉ filenames) ↔
      ∃ o ∈ outputs, o.filename ∉ filenames := by
    simp [sortedFiles, outputFile]
  rw [assertReproducibilityContract]
  simp only [Fallible.bind_ok, validate_contract, readOutputs_contract, Fallible.guard_ok, hreported, and_true]
  constructor
  · rintro ⟨_, ⟨hinputs, hsizes, hset, rfl⟩, hok⟩
    rw [not_or, hnames] at hok
    exact ⟨hinputs, hsizes, hset, by simpa using hok.2⟩
  · rintro ⟨hinputs, hsizes, hset, hok⟩
    refine ⟨_, ⟨hinputs, hsizes, hset, rfl⟩, ?_⟩
    rw [not_or, hnames]
    exact ⟨not_not.mpr rfl, by simpa using hok⟩

end

/-- A truthful contract is accepted, whatever the digest, exactly when the two programs make the same texts of the
build: the sources are listed and `json.Marshal` escapes no character of theirs, of the plan or of a file name that
`JSON.stringify` leaves, the sizes are safe integers and the collation keeps the order of the worker. -/
theorem contract_accepted_iff (collate : String → String → Bool) (job : Job) (outputs : List ReproducibilityOutput)
    (filenames : List String) :
    (∀ sha256, assertReproducibilityContract ⟨sha256, collate⟩ (singleBuildContract sha256 job outputs (some performed))
      (expectation job) (reported outputs) filenames = .ok ()) ↔ Agrees collate job outputs filenames := by
  simp only [assert_contract, isInputs_contract]
  constructor
  · intro h
    have hsources := (sources_text job).mp ((digest_eq_iff _ _).mp fun sha256 => (h sha256).1.1).symm
    have hplan : ∀ plan, job.dependencyPlan = some plan → plan.json.AllStr PlainText := fun plan hp =>
      ((canonicalText_eq_iff (plain_plan plan) plan.json).mp
        ((digest_eq_iff _ _).mp fun sha256 => (h sha256).1.2 plan hp).symm).2
    have hset := (outputs_text _ outputs).mp ((digest_eq_iff _ _).mp fun sha256 => (h sha256).2.2.1).symm
    obtain ⟨-, hsizes, -, hnames⟩ := h fun _ => .zero
    exact ⟨hsources, hplan, hsizes, hset.1, fun o ho => ⟨hset.2 o ho, hnames o ho⟩⟩
  · intro ⟨hsources, hplan, hsizes, horder, houtputs⟩ sha256
    refine ⟨⟨?_, fun plan hp => ?_⟩, hsizes, ?_, fun o ho => (houtputs o ho).2⟩
    · rw [(sources_text job).mpr hsources]
    · rw [(canonicalText_eq_iff (plain_plan plan) plan.json).mpr ⟨rfl, hplan plan hp⟩]
    · rw [sortedFiles, (outputs_text _ outputs).mpr ⟨horder, fun o ho => (houtputs o ho).1⟩]

/-- A job with one source, whose address has a query of two parameters. -/
def queryJob : Job where
  architecture := "x86_64"
  recipeSha256 := "0000000000000000000000000000000000000000000000000000000000000000"
  imageDigest := "sha256:0000000000000000000000000000000000000000000000000000000000000000"
  sourceDateEpoch := 1
  sources := some [⟨"a.tar.gz", "https://example.org/a?b=1&c=2",
    "0000000000000000000000000000000000000000000000000000000000000000"⟩]
  inputLock := none
  dependencyPlan := none
  factoryRunId := ""
  factoryAttempt := 0
  factoryInputSha256 := ""

def queryOutputs : List ReproducibilityOutput := [⟨"a-1-1-any.pkg.tar.zst", 1, .zero⟩]

/-- A digest of 32 times the sum of the bytes. -/
def checksum (bytes : Bytes) : Hash.Digest :=
  ⟨List.replicate 32 (UInt8.ofNat (bytes.foldl (fun n b => n + b.toNat) 0)), by rw [List.length_replicate]⟩

/-- The encoders differ at the `&` of an address, and the server turns the build away. -/
theorem query_rejected : assertReproducibilityContract ⟨checksum, fun a b => a ≤ b⟩
    (singleBuildContract checksum queryJob queryOutputs (some performed)) (expectation queryJob) (reported queryOutputs)
    ["a-1-1-any.pkg.tar.zst"] = .error "Single-build reproducibility inputs do not match provenance" := by
  decide +kernel

end Omapkg.Wire
