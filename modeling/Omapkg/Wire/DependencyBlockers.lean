import Omapkg.Server.DependencyBlockers
import Omapkg.Wire.Relations
import Omapkg.Worker.DependencyBlockers
/-!
# Failures of both sides

The blockers a worker reports against those the server records. The worker
leaves out a relation that it does not have, and the server wants it said.
-/

namespace Omapkg.Wire

open Json Utf Omapkg.Server
open Omapkg.Server.Arch (isWord isRelationChar isSonameV1 isSoname isSonameChar isSonameTailChar parseArchPackageVersion
  parseArchDependency parseLegacySoname parsePrefixedSoname parseArchRelation hasSpace textOf)
open Omapkg.Server.Dependency (DependencyBlockerInput Phase Resolution readDetail readDigest readPhase readResolution
  blockerSchema parseDependencyBlockers isBlockerRelation isAdmissible nullableText)
open Omapkg.Worker (RuntimeProblem RuntimeException AnalysisFinding analysisText needsReview reviewBlocker
  missingBlocker validArchDependency)

/-! ## Texts -/

theorem length_encodeUnit (c : Char) : (encodeUnit c).length ≤ (String.utf8EncodeChar c).length := by
  rw [String.length_utf8EncodeChar, encodeUnit]
  have hpos := Char.utf8Size_pos c
  split
  · show 1 ≤ c.utf8Size
    exact hpos
  · next hlarge =>
    have hone : c.utf8Size ≠ 1 := by
      intro h
      have hle := Char.utf8Size_eq_one_iff.mp h
      have hnat : c.toNat ≤ 127 := hle
      omega
    simp only [List.length_cons, List.length_nil]
    omega

/-- A text has no more units than bytes. -/
theorem length_units (cs : List Char) : (units (String.ofList cs)).length ≤ (encode cs).length := by
  rw [units, String.toList_ofList, encode]
  induction cs with
  | nil => exact Nat.le_refl 0
  | cons c cs ih =>
    rw [List.flatMap_cons, List.flatMap_cons, List.length_append, List.length_append]
    have := length_encodeUnit c
    omega

theorem length_trim (s : JsString) : (trim s).length ≤ s.length := by
  rw [trim, List.length_reverse]
  have hright : ((s.dropWhile isJsSpace).reverse.dropWhile isJsSpace).length ≤ (s.dropWhile isJsSpace).reverse.length :=
    (List.dropWhile_sublist _).length_le
  have hleft : (s.dropWhile isJsSpace).length ≤ s.length := (List.dropWhile_sublist _).length_le
  rw [List.length_reverse] at hright
  omega

theorem mem_of_mem_trim {s : JsString} {u : UInt16} (h : u ∈ trim s) : u ∈ s := by
  rw [trim, List.mem_reverse] at h
  have hright := (List.dropWhile_sublist _).subset h
  exact (List.dropWhile_sublist _).subset (List.mem_reverse.mp hright)

/-- What starts with a visible character is not blank. -/
theorem trim_ne_nil {u : UInt16} {s : JsString} (hu : isJsSpace u = false) : trim (u :: s) ≠ [] := by
  rw [trim, List.dropWhile_cons, hu, if_neg (by decide)]
  intro h
  have hall := List.dropWhile_eq_nil_iff.mp (List.reverse_eq_nil_iff.mp h) u (by simp)
  rw [hu] at hall
  cases hall

/-- A detail that the server takes. -/
theorem readDetail_some {s : String} {u : UInt16} {us : JsString} (hs : units s = u :: us) (hu : isJsSpace u = false)
    (hlength : (units s).length ≤ 4096) (hclean : ∀ u ∈ units s, u ≠ 0x0 ∧ u ≠ 0x0D) :
    readDetail s = some (trim (units s)) := by
  have hpos : 1 ≤ (trim (units s)).length := by
    rw [hs]
    exact List.length_pos_of_ne_nil (trim_ne_nil hu)
  have hmost : (trim (units s)).length ≤ 4096 := (length_trim _).trans hlength
  have hnul : (trim (units s)).contains 0x0 = false := by
    by_contra h
    exact (hclean _ (mem_of_mem_trim (List.contains_iff_mem.mp (by simpa using h)))).1 rfl
  have hreturn : (trim (units s)).contains 0x0D = false := by
    by_contra h
    exact (hclean _ (mem_of_mem_trim (List.contains_iff_mem.mp (by simpa using h)))).2 rfl
  rw [readDetail, if_pos ⟨hpos, hmost, hnul, hreturn⟩]

/-- The units of a text without control characters. -/
theorem units_clean {cs : List Char} (h : ∀ c ∈ cs, 32 ≤ c.toNat) : ∀ u ∈ units (String.ofList cs), u ≠ 0x0 ∧ u ≠ 0x0D := by
  intro u hu
  rw [units, String.toList_ofList] at hu
  obtain ⟨c, hc, hu⟩ := List.mem_flatMap.mp hu
  have hlow := h c hc
  have hvalid := char_not_surrogate c
  have hnat : 32 ≤ u.toNat := by
    rw [encodeUnit] at hu
    split at hu
    · next hsmall =>
      rw [List.mem_singleton] at hu
      rw [hu, toNat_unit hsmall]
      exact hlow
    · simp only [List.mem_cons, List.not_mem_nil, or_false] at hu
      rcases hu with rfl | rfl
      · rw [toNat_unit (by omega)]
        omega
      · rw [toNat_unit (by omega)]
        omega
  constructor <;> rintro rfl <;> exact absurd hnat (by decide)

/-! ## Relations -/

theorem takeOperator_spelled {rest version : List Char} {op : Arch.Operator} (h : Arch.takeOperator rest = some (op, version)) :
    rest = spelled op ++ version := by
  unfold Arch.takeOperator at h
  split at h <;> cases h <;> rfl

theorem archVersion_graphic {version : List Char} (h : (parseArchPackageVersion version).isSome = true) :
    ∀ c ∈ version, Graphic c := by
  rw [← parsePackageVersion_eq] at h
  exact fun c hc => graphic_version (version_all (version_valid h) c hc)

theorem sonameV1_graphic {name : List Char} (h : isSonameV1 name = true) : ∀ c ∈ name, Graphic c :=
  fun c hc => graphic_class _ (by decide) (sonameV1_all h c hc)

theorem archDependency_graphic {s : String} {d : Arch.ArchDependency} (h : parseArchDependency s = some d) :
    ∀ c ∈ s.toList, Graphic c := by
  unfold parseArchDependency at h
  split at h
  · cases h
  · rcases hspan : s.toList.span isRelationChar with ⟨name, rest⟩
    rw [hspan] at h
    have hs : s.toList = name ++ rest := by
      rw [List.span_eq_takeWhile_dropWhile, Prod.mk.injEq] at hspan
      rw [← hspan.1, ← hspan.2, List.takeWhile_append_dropWhile]
    have hname : ∀ c ∈ name, Graphic c := by
      intro c hc
      rw [List.span_eq_takeWhile_dropWhile, Prod.mk.injEq] at hspan
      rw [← hspan.1] at hc
      have hchar : isRelationChar c = true := List.mem_takeWhile_imp hc
      exact graphic_class _ (by decide) hchar
    have hrest : ∀ c ∈ rest, Graphic c := by
      dsimp only at h
      split at h
      · cases h
      split at h
      · next hnil =>
        intro c hc
        rw [hnil] at hc
        cases hc
      · split at h
        · next op version hop =>
          split at h
          · next hversion =>
            intro c hc
            rw [takeOperator_spelled hop] at hc
            rcases List.mem_append.mp hc with hc | hc
            · cases op <;> exact graphic_all (by decide) c hc
            · exact archVersion_graphic hversion c hc
          · cases h
        · cases h
    intro c hc
    rw [hs] at hc
    rcases List.mem_append.mp hc with hc | hc
    · exact hname c hc
    · exact hrest c hc

theorem legacySoname_graphic {s : String} {d : Arch.ArchDependency} (h : parseLegacySoname s = some d) :
    ∀ c ∈ s.toList, Graphic c := by
  unfold parseLegacySoname at h
  rcases hspan : s.toList.span (fun c => decide (c ≠ '=')) with ⟨name, _ | ⟨sign, version⟩⟩
  · rw [hspan] at h
    dsimp only at h
    split at h
    · next hname =>
      rw [← (not_mem_of_span hspan).2]
      exact sonameV1_graphic hname
    · cases h
  · rw [hspan] at h
    dsimp only at h
    rw [List.span_eq_takeWhile_dropWhile, Prod.mk.injEq] at hspan
    have hs : s.toList = name ++ sign :: version := by
      rw [← hspan.1, ← hspan.2, List.takeWhile_append_dropWhile]
    have hsign : sign = '=' := by
      have hhead := List.head?_dropWhile_not (fun c => decide (c ≠ '=')) s.toList
      rw [hspan.2] at hhead
      simpa using hhead
    split at h
    · next hboth =>
      obtain ⟨hname, hversion⟩ := Bool.and_eq_true_iff.mp hboth
      intro c hc
      rw [hs] at hc
      rcases List.mem_append.mp hc with hc | hc
      · exact sonameV1_graphic hname c hc
      · rcases List.mem_cons.mp hc with rfl | hc
        · rw [hsign]
          decide
        · exact archVersion_graphic hversion c hc
    · cases h

/-- A relation that the server parses has visible characters only. -/
theorem archRelation_graphic {s : String} (h : (parseArchRelation s).isSome = true) : ∀ c ∈ s.toList, Graphic c := by
  rw [parseArchRelation] at h
  cases hdependency : parseArchDependency s with
  | some d => exact archDependency_graphic hdependency
  | none =>
    cases hlegacy : parseLegacySoname s with
    | some d => exact legacySoname_graphic hlegacy
    | none =>
      rw [hdependency, hlegacy] at h
      have hprefixed : (parsePrefixedSoname s).isSome = true := h
      unfold parsePrefixedSoname at hprefixed
      split at hprefixed
      · next hboth =>
        intro c hc
        rcases (soname_all (Bool.and_eq_true_iff.mp hboth).1).2 c hc with hc | hc | rfl
        · exact graphic_class _ (by decide) hc
        · exact graphic_class _ (by decide) hc
        · decide
      · cases hprefixed

/-! ## Reports -/

/-- What the server reads of a blocker that has a relation. -/
structure Reads (b : Worker.DependencyBlocker) (item : DependencyBlockerInput) : Prop where
  relation : item.relation = some b.relation
  phase : readPhase b.phase = some item.phase
  resolution : readResolution b.resolution = some item.resolution
  detail : readDetail b.detail = some item.detail
  digest : readDigest (if b.findingSha256 = "" then none else some (.str b.findingSha256)) = some item.findingSha256

theorem blockerSchema_json {b : Worker.DependencyBlocker} {item : DependencyBlockerInput} (h : Reads b item) :
    blockerSchema b.json = if b.relation = "" then none else some item := by
  obtain ⟨hrelation, hphase, hresolution, hdetail, hdigest⟩ := h
  by_cases hr : b.relation = ""
  · rw [if_pos hr, blockerSchema, if_pos]
    by_cases hd : b.findingSha256 = "" <;>
      simp [Worker.DependencyBlocker.json, Worker.omitEmpty, hr, hd, hasKeys]
  · rw [if_neg hr]
    by_cases hd : b.findingSha256 = ""
    · rw [if_pos hd] at hdigest
      simp [blockerSchema, Worker.DependencyBlocker.json, Worker.omitEmpty, hr, hd, hasKeys, property, nullableText,
        textOf, hphase, hresolution, hdetail, hdigest, ← hrelation]
    · rw [if_neg hd] at hdigest
      simp [blockerSchema, Worker.DependencyBlocker.json, Worker.omitEmpty, hr, hd, hasKeys, property, nullableText,
        textOf, hphase, hresolution, hdetail, hdigest, ← hrelation]

theorem mapM_json {bs : List Worker.DependencyBlocker} {items : List DependencyBlockerInput}
    (h : List.Forall₂ Reads bs items) :
    (bs.map Worker.DependencyBlocker.json).mapM blockerSchema =
      if ∀ b ∈ bs, b.relation ≠ "" then some items else none := by
  induction h with
  | nil => simp
  | cons hread _ ih =>
    rw [List.map_cons, List.mapM_cons, blockerSchema_json hread, ih]
    simp only [List.forall_mem_cons]
    split_ifs <;> simp_all

/-- Taken by the server, with phase, resolution, relation and digest as they were sent. -/
def Recorded (blockers : List Worker.DependencyBlocker) : Prop :=
  ∃ items, parseDependencyBlockers (Worker.blockersJson blockers) = .ok items ∧
    List.Forall₂ (fun (b : Worker.DependencyBlocker) (item : DependencyBlockerInput) =>
      item.phase.text = b.phase ∧ item.resolution.text = b.resolution ∧ item.relation.getD "" = b.relation ∧
        item.findingSha256.getD "" = b.findingSha256) blockers items

theorem Reads.kept {b : Worker.DependencyBlocker} {item : DependencyBlockerInput} (h : Reads b item) :
    item.phase.text = b.phase ∧ item.resolution.text = b.resolution ∧ item.relation.getD "" = b.relation ∧
      item.findingSha256.getD "" = b.findingSha256 := by
  obtain ⟨hrelation, hphase, hresolution, -, hdigest⟩ := h
  refine ⟨?_, ?_, by rw [hrelation]; rfl, ?_⟩
  · unfold readPhase at hphase
    split_ifs at hphase with h1 h2 h3
    · rw [h1, ← Option.some.inj hphase]
      rfl
    · rw [h2, ← Option.some.inj hphase]
      rfl
    · rw [h3, ← Option.some.inj hphase]
      rfl
  · unfold readResolution at hresolution
    split_ifs at hresolution with h1 h2 h3
    · rw [h1, ← Option.some.inj hresolution]
      rfl
    · rw [h2, ← Option.some.inj hresolution]
      rfl
    · rw [h3, ← Option.some.inj hresolution]
      rfl
  · by_cases hd : b.findingSha256 = ""
    · rw [if_pos hd] at hdigest
      rw [hd, ← Option.some.inj hdigest]
      rfl
    · rw [if_neg hd, readDigest] at hdigest
      split at hdigest
      · rw [← Option.some.inj hdigest]
        rfl
      · cases hdigest

theorem isBlockerRelation_ne {relation : String} (h : isBlockerRelation relation = true) : relation ≠ "" := by
  rintro rfl
  exact absurd h (by decide)

/-- The server reads a relation only where one was sent. -/
theorem blockerSchema_relation {b : Worker.DependencyBlocker} {item : DependencyBlockerInput}
    (h : blockerSchema b.json = some item) : item.relation = some b.relation := by
  by_cases hr : b.relation = ""
  · rw [blockerSchema, if_pos] at h
    · cases h
    · by_cases hd : b.findingSha256 = "" <;> simp [Worker.DependencyBlocker.json, Worker.omitEmpty, hr, hd, hasKeys]
  · have hproperty : nullableText (property "relation" b.json) = some (some b.relation) := by
      by_cases hd : b.findingSha256 = "" <;>
        simp [Worker.DependencyBlocker.json, Worker.omitEmpty, hr, hd, property, nullableText]
    unfold blockerSchema at h
    split at h
    · cases h
    · rw [hproperty] at h
      simp only [Option.bind_eq_bind, Option.bind_eq_some_iff, Option.some.injEq, exists_eq_left'] at h
      obtain ⟨phase, -, resolution, -, detail, -, digest, -, rfl⟩ := h
      rfl

theorem mem_of_mapM {α β : Type} {f : α → Option β} {l : List α} {ys : List β} (h : l.mapM f = some ys) {x : α}
    (hx : x ∈ l) : ∃ y ∈ ys, f x = some y := by
  induction l generalizing ys with
  | nil => cases hx
  | cons a l ih =>
    rw [List.mapM_cons] at h
    simp only [Option.bind_eq_bind, Option.bind_eq_some_iff, Option.pure_def, Option.some.injEq] at h
    obtain ⟨y, hy, zs, hzs, rfl⟩ := h
    rcases List.mem_cons.mp hx with rfl | hx
    · exact ⟨y, List.mem_cons_self, hy⟩
    · obtain ⟨y', hmem, hy'⟩ := ih hzs hx
      exact ⟨y', List.mem_cons_of_mem _ hmem, hy'⟩

/-- A report that was taken names a relation in each blocker. -/
theorem Recorded.relations {bs : List Worker.DependencyBlocker} (h : Recorded bs) :
    ∀ b ∈ bs, isBlockerRelation b.relation = true := by
  intro b hb
  obtain ⟨items, hparse, -⟩ := h
  have hne : bs ≠ [] := List.ne_nil_of_mem hb
  rw [Worker.blockersJson, if_neg hne, parseDependencyBlockers] at hparse
  cases hmap : (bs.map Worker.DependencyBlocker.json).mapM blockerSchema with
  | none =>
    rw [hmap] at hparse
    cases hparse
  | some taken =>
    rw [hmap] at hparse
    dsimp only at hparse
    split at hparse
    · cases hparse
    split at hparse
    · next hall =>
      obtain ⟨item, hitem, hschema⟩ := mem_of_mapM hmap (List.mem_map.mpr ⟨b, hb, rfl⟩)
      have hadmissible := List.all_eq_true.mp hall item hitem
      rw [isAdmissible, blockerSchema_relation hschema, Option.all_some] at hadmissible
      exact (Bool.and_eq_true_iff.mp hadmissible).1
    · cases hparse

theorem isAdmissible_of {b : Worker.DependencyBlocker} {item : DependencyBlockerInput} (h : Reads b item)
    (hrelation : isBlockerRelation b.relation = true) : isAdmissible item = true := by
  rw [isAdmissible, h.relation, Option.all_some, Option.any_some, Bool.and_eq_true]
  exact ⟨hrelation, by simp [isBlockerRelation_ne hrelation]⟩

theorem exists_reads {bs : List Worker.DependencyBlocker} (h : ∀ b ∈ bs, ∃ item, Reads b item) :
    ∃ items, List.Forall₂ Reads bs items := by
  induction bs with
  | nil => exact ⟨[], .nil⟩
  | cons b rest ih =>
    obtain ⟨item, hitem⟩ := h b List.mem_cons_self
    obtain ⟨items, hitems⟩ := ih fun b' hb' => h b' (List.mem_cons_of_mem _ hb')
    exact ⟨item :: items, .cons hitem hitems⟩

/-- A report of up to 16 blockers, whose other parts the server takes, is recorded
exactly when each of them has a relation that it takes. -/
theorem recorded_iff {bs : List Worker.DependencyBlocker} (hmost : bs.length ≤ 16)
    (hreads : ∀ b ∈ bs, isBlockerRelation b.relation = true → ∃ item, Reads b item) :
    Recorded bs ↔ ∀ b ∈ bs, isBlockerRelation b.relation = true := by
  refine ⟨Recorded.relations, fun hrelations => ?_⟩
  obtain ⟨items, hitems⟩ := exists_reads fun b hb => hreads b hb (hrelations b hb)
  refine ⟨items, ?_, hitems.imp fun _ _ hread => hread.kept⟩
  by_cases hnil : bs = []
  · subst hnil
    cases hitems
    rfl
  · have hlength := hitems.length_eq
    have hpos := List.length_pos_of_ne_nil hnil
    have hfit : ¬(items = [] ∨ items.length > 16) := by
      rintro (hempty | hmany)
      · rw [hempty, List.length_nil] at hlength
        omega
      · omega
    have hnamed : ∀ b ∈ bs, b.relation ≠ "" := fun b hb => isBlockerRelation_ne (hrelations b hb)
    have hall : items.all isAdmissible = true := by
      rw [List.all_eq_true]
      intro item hitem
      obtain ⟨n, hn⟩ := List.mem_iff_getElem?.mp hitem
      clear hfit hnamed hpos hnil hlength hmost hreads
      induction hitems generalizing n with
      | nil => cases hn
      | cons hread _ ih =>
        rw [List.forall_mem_cons] at hrelations
        cases n with
        | zero =>
          cases hn
          exact isAdmissible_of hread hrelations.1
        | succ n => exact ih hrelations.2 (List.mem_of_getElem? hn) n hn
    rw [Worker.blockersJson, if_neg hnil, parseDependencyBlockers, mapM_json hitems, if_pos hnamed]
    simp only [if_neg hfit, hall, if_true]

/-! ## Findings -/

theorem analysisText_append (s t : String) : analysisText (s ++ t) = (analysisText s && analysisText t) := by
  simp [analysisText]

theorem clean_append {s t : String} (hs : analysisText s = true) (ht : analysisText t = true) :
    analysisText (s ++ t) = true := by
  rw [analysisText_append, hs, ht]
  rfl

/-- The texts between the names of a finding. -/
theorem separators_clean : ∀ s ∈ [" ", " used by ", ": unresolved loader search token for ", " needing ", " needed by ", ": "],
    analysisText s = true := by
  decide +kernel

theorem text_clean (problem : RuntimeProblem) : analysisText problem.text = true := by
  have hspace := separators_clean " " (by simp)
  have husedBy := separators_clean " used by " (by simp)
  cases problem with
  | dependencyNotSatisfied relation => exact clean_append hspace relation.clean
  | dependencyDuplicatedOptdepend name => exact clean_append hspace name.clean
  | libdependsWithoutVersion relation => exact clean_append hspace relation.clean
  | libprovidesWithoutVersion relation => exact clean_append hspace relation.clean
  | runtimeFileMissing path usedBy =>
    exact clean_append (clean_append (clean_append hspace path.clean) husedBy) usedBy.clean
  | libraryNoPackageAssociated path usedBy =>
    exact clean_append (clean_append (clean_append hspace path.clean) husedBy) usedBy.clean
  | unresolvedLoaderSearch path needed =>
    have hsearch : analysisText ": unresolved loader search token for " = true := separators_clean _ (by simp)
    have hneeding : analysisText " needing " = true := separators_clean _ (by simp)
    exact clean_append (clean_append (clean_append hsearch path.clean) hneeding) needed.clean
  | dependencyDetectedButOptional name usedBy =>
    exact clean_append (clean_append (clean_append hspace name.clean) husedBy) usedBy.clean
  | dependencyDetectedNotIncluded owner usedBy =>
    exact clean_append (clean_append (clean_append hspace owner.clean) husedBy) usedBy.clean
  | libraryNotFound needed path =>
    have hneededBy : analysisText " needed by " = true := separators_clean _ (by simp)
    exact clean_append (clean_append (clean_append hspace needed.clean) hneededBy) path.clean
  | scriptInterpreterInvalid name cause =>
    have hcolon : analysisText ": " = true := separators_clean _ (by simp)
    exact clean_append (clean_append (clean_append hspace name.clean) hcolon) cause.clean

theorem problem_clean (problem : RuntimeProblem) : analysisText problem.detail = true := by
  have hcode : analysisText problem.code = true := by
    cases problem <;> simp only [RuntimeProblem.code] <;> decide +kernel
  exact clean_append hcode (text_clean problem)

/-- A finding of a problem. -/
structure Finds (problem : RuntimeProblem) (finding : AnalysisFinding) : Prop where
  detail : finding.detail = problem.detail
  fits : (encode problem.detail.toList).length ≤ 4096
  digest : ∃ digest : Hash.Digest, finding.sha256 = digest.hex

theorem addFindings_find {sha256 : Bytes → Hash.Digest} {problems : List RuntimeProblem}
    {findings findings' : List AnalysisFinding} (h : Worker.addFindings sha256 problems findings = .ok findings')
    (hfinds : ∀ f ∈ findings, ∃ problem, Finds problem f) : ∀ f ∈ findings', ∃ problem, Finds problem f := by
  induction problems generalizing findings with
  | nil =>
    cases h
    exact hfinds
  | cons problem rest ih =>
    obtain ⟨more, hmore, h⟩ := Fallible.bind_ok.mp h
    apply ih h
    unfold Worker.addFinding at hmore
    obtain ⟨hfits, hmore⟩ := Fallible.guard_ok.mp hmore
    split at hmore
    · cases hmore
      exact hfinds
    · obtain ⟨-, hmore⟩ := Fallible.guard_ok.mp hmore
      cases hmore
      intro f hf
      rcases List.mem_append.mp hf with hf | hf
      · exact hfinds f hf
      · rw [List.mem_singleton] at hf
        rw [hf]
        exact ⟨problem, rfl, Nat.le_of_not_lt hfits, _, rfl⟩

theorem checkDependencies_find {sha256 : Bytes → Hash.Digest} {problems : List RuntimeProblem}
    {findings : List AnalysisFinding} (h : Worker.checkDependencies sha256 problems = .ok findings) :
    ∀ f ∈ findings, ∃ problem, Finds problem f := by
  obtain ⟨found, hfound, h⟩ := Fallible.bind_ok.mp h
  cases h
  intro f hf
  rw [List.mem_insertionSort] at hf
  exact addFindings_find hfound (fun f hf => by cases hf) f hf

theorem problem_starts (problem : RuntimeProblem) :
    ∃ u us, units problem.detail = u :: us ∧ isJsSpace u = false := by
  have hcode : (units problem.code).head?.any (fun u => !isJsSpace u) = true := by
    cases problem <;> simp only [RuntimeProblem.code] <;> decide
  rw [RuntimeProblem.detail, units_append]
  cases hunits : units problem.code with
  | nil =>
    rw [hunits] at hcode
    cases hcode
  | cons u us =>
    rw [hunits, List.head?_cons, Option.any_some, Bool.not_eq_true'] at hcode
    exact ⟨u, us ++ units problem.text, rfl, hcode⟩

/-- The server takes what a finding is told with. -/
theorem reviewBlocker_reads {problem : RuntimeProblem} {f : AnalysisFinding} (h : Finds problem f) :
    ∃ item, Reads (reviewBlocker f) item := by
  obtain ⟨u, us, hunits, hspace⟩ := problem_starts problem
  obtain ⟨digest, hdigest⟩ := h.digest
  have hclean : ∀ c ∈ problem.detail.toList, 32 ≤ c.toNat := by
    intro c hc
    have hchar := List.all_eq_true.mp (problem_clean problem) c hc
    simp only [Bool.and_eq_true, decide_eq_true_eq] at hchar
    exact hchar.1
  have hdetail : readDetail f.detail = some (trim (units f.detail)) := by
    rw [h.detail]
    apply readDetail_some hunits hspace
    · have hlength := length_units problem.detail.toList
      rw [String.ofList_toList] at hlength
      exact hlength.trans h.fits
    · have hunit := units_clean hclean
      rwa [String.ofList_toList] at hunit
  have hne : f.sha256 ≠ "" := by
    intro he
    have hhex := Hash.isHexDigest_hex digest
    rw [← hdigest, he] at hhex
    exact absurd hhex (by decide)
  have hread : readDigest (some (.str f.sha256)) = some (some f.sha256) := by
    rw [readDigest, hdigest, isSha256_hex, if_pos rfl]
  refine ⟨⟨some (reviewBlocker f).relation, .runtime, if Worker.isAmbiguous f then .exception else .recipe,
    trim (units f.detail), some f.sha256⟩, rfl, rfl, ?_, hdetail, ?_⟩
  · rw [reviewBlocker]
    split <;> rfl
  · show readDigest (if f.sha256 = "" then none else some (.str f.sha256)) = _
    rw [if_neg hne]
    exact hread

theorem analyzePackage_eq {exceptions : List RuntimeException} {findings : List AnalysisFinding} :
    Worker.analyzePackage exceptions findings =
      ((findings.find? (needsReview exceptions)).map reviewBlocker).toList := by
  induction findings with
  | nil => rfl
  | cons f rest ih =>
    rw [Worker.analyzePackage, List.find?_cons]
    cases needsReview exceptions f with
    | true => rfl
    | false => simpa using ih

/-! ## Missing packages -/

theorem missingBlockers_eq {log : Bytes} {dependencies : List String} {blockers : List Worker.DependencyBlocker}
    (h : blockers.length < 16) :
    Worker.missingBlockers log dependencies blockers =
      blockers ++ ((dependencies.filter (Worker.isMissing log)).take (16 - blockers.length)).map missingBlocker := by
  induction dependencies generalizing blockers with
  | nil => simp [Worker.missingBlockers]
  | cons d rest ih =>
    rw [Worker.missingBlockers]
    by_cases hd : Worker.isMissing log d = true
    · rw [if_pos hd, List.filter_cons_of_pos hd]
      have hlength : (blockers ++ [missingBlocker d]).length = blockers.length + 1 := by simp
      have hroom : 16 - blockers.length = (15 - blockers.length) + 1 := by omega
      by_cases hfull : blockers.length + 1 = 16
      · rw [hlength, if_pos hfull, hroom, List.take_succ_cons]
        have hzero : 15 - blockers.length = 0 := by omega
        simp [hzero]
      · rw [hlength, if_neg hfull, ih (by omega), hlength, hroom, List.take_succ_cons]
        have hsame : 16 - (blockers.length + 1) = 15 - blockers.length := by omega
        simp [hsame]
    · rw [if_neg hd, List.filter_cons_of_neg hd]
      have hless : blockers.length ≠ 16 := by omega
      rw [if_neg hless, ih h]

theorem missingBlocker_reads {d : String} (h : isBlockerRelation d = true) : ∃ item, Reads (missingBlocker d) item := by
  rw [isBlockerRelation, Bool.and_eq_true, decide_eq_true_eq] at h
  have hlength : (units "Approved repositories could not resolve ").length = 40 := by decide +kernel
  have hchars : ("Approved repositories could not resolve ".toList.all fun c => 32 ≤ c.toNat) = true := by decide +kernel
  have hprefix : ∀ u ∈ units "Approved repositories could not resolve ", u ≠ 0x0 ∧ u ≠ 0x0D := by
    have hunits := units_clean fun c hc => of_decide_eq_true (List.all_eq_true.mp hchars c hc)
    rwa [String.ofList_toList] at hunits
  have hrelation : ∀ u ∈ units d, u ≠ 0x0 ∧ u ≠ 0x0D := by
    have hclean := units_clean fun c hc => Nat.le_of_lt (archRelation_graphic h.2 c hc).1
    rwa [String.ofList_toList] at hclean
  have hunits : units (missingBlocker d).detail = 0x41 :: (units "pproved repositories could not resolve " ++ units d) := by
    have hfirst : units "Approved repositories could not resolve " = 0x41 :: units "pproved repositories could not resolve " := by
      decide +kernel
    rw [missingBlocker, units_append, hfirst, List.cons_append]
  have hdetail : readDetail (missingBlocker d).detail = some (trim (units (missingBlocker d).detail)) := by
    apply readDetail_some hunits
    · decide
    · rw [missingBlocker, units_append, List.length_append, hlength]
      omega
    · intro u hu
      rw [missingBlocker, units_append] at hu
      rcases List.mem_append.mp hu with hu | hu
      · exact hprefix u hu
      · exact hrelation u hu
  exact ⟨⟨some d, .build, .dependency, _, none⟩, rfl, rfl, rfl, hdetail, rfl⟩

/-! ## Every failure -/

/-- A failure is recorded exactly when the first finding to review names a dependency
that both sides take, and when each missing package that is reported is a relation the
server takes. -/
theorem failure_recorded_iff {sha256 : Bytes → Hash.Digest} {problems : List RuntimeProblem}
    {findings : List AnalysisFinding} (h : Worker.checkDependencies sha256 problems = .ok findings)
    (exceptions : List RuntimeException) (log : Bytes) (dependencies : List String) :
    (Recorded (Worker.analyzePackage exceptions findings) ↔
      ∀ f, findings.find? (needsReview exceptions) = some f →
        ∃ d, f.dependency = some d ∧ validArchDependency d.toList = true ∧ isBlockerRelation d = true) ∧
    (Recorded (Worker.missingPackageError log dependencies) ↔
      ∀ d ∈ (dependencies.filter (Worker.isMissing log)).take 16, isBlockerRelation d = true) := by
  constructor
  · rw [analyzePackage_eq]
    cases hfound : findings.find? (needsReview exceptions) with
    | none =>
      rw [recorded_iff (Nat.zero_le _) (fun b hb => by cases hb)]
      simp
    | some f =>
      obtain ⟨problem, hproblem⟩ := checkDependencies_find h f (List.mem_of_find?_eq_some hfound)
      have hone : Recorded [reviewBlocker f] ↔ isBlockerRelation (reviewBlocker f).relation = true := by
        rw [recorded_iff (by simp) fun b hb _ => ?_]
        · simp
        · rw [List.mem_singleton] at hb
          rw [hb]
          exact reviewBlocker_reads hproblem
      have hempty : isBlockerRelation "" ≠ true := fun h => isBlockerRelation_ne h rfl
      show Recorded [reviewBlocker f] ↔ _
      rw [hone]
      cases hd : f.dependency with
      | none => simp [reviewBlocker, hd, hempty]
      | some d =>
        by_cases hv : validArchDependency d.toList = true
        · simp [reviewBlocker, hd, hv, Option.filter]
        · simp [reviewBlocker, hd, hv, hempty, Option.filter]
  · have heq : Worker.missingPackageError log dependencies =
        ((dependencies.filter (Worker.isMissing log)).take 16).map missingBlocker := by
      have hstart : ([] : List Worker.DependencyBlocker).length < 16 := by decide
      exact missingBlockers_eq hstart
    rw [heq, recorded_iff]
    · rw [List.forall_mem_map]
      exact Iff.rfl
    · rw [List.length_map, List.length_take]
      omega
    · intro b hb hrelation
      obtain ⟨d, -, rfl⟩ := List.mem_map.mp hb
      exact missingBlocker_reads hrelation

/-- A program that loads a library of a package it does not depend on. -/
def undeclaredProblem : RuntimeProblem := .dependencyDetectedNotIncluded ⟨"zlib", by decide +kernel⟩ ⟨"usr/bin/app", by decide +kernel⟩

def undeclaredFinding : AnalysisFinding where
  code := "dependency-detected-not-included"
  level := "error"
  detail := "dependency-detected-not-included zlib used by usr/bin/app"
  dependency := some "zlib"
  sha256 := Hash.Digest.zero.hex

theorem undeclared_found : Worker.checkDependencies (fun _ => .zero) [undeclaredProblem] = .ok [undeclaredFinding] := by
  decide +kernel

theorem failure_recorded_undeclared :
    (Recorded (Worker.analyzePackage [] [undeclaredFinding]) ↔
      ∀ f, [undeclaredFinding].find? (needsReview []) = some f →
        ∃ d, f.dependency = some d ∧ validArchDependency d.toList = true ∧ isBlockerRelation d = true) ∧
    (Recorded (Worker.missingPackageError [] ["zlib"]) ↔
      ∀ d ∈ (["zlib"].filter (Worker.isMissing [])).take 16, isBlockerRelation d = true) :=
  failure_recorded_iff undeclared_found [] [] ["zlib"]

/-- A program that loads a library which no package has. -/
def unresolvedProblem : RuntimeProblem := .libraryNotFound ⟨"libfoo.so.1", by decide +kernel⟩ ⟨"usr/bin/app", by decide +kernel⟩

def unresolvedFinding : AnalysisFinding where
  code := "library-not-found"
  level := "error"
  detail := "library-not-found libfoo.so.1 needed by usr/bin/app"
  dependency := none
  sha256 := Hash.Digest.zero.hex

/-- The finding names no dependency, its blocker no relation, and the report is refused. -/
theorem library_not_found_rejected :
    Worker.checkDependencies (fun _ => .zero) [unresolvedProblem] = .ok [unresolvedFinding] ∧
      ¬Recorded (Worker.analyzePackage [] [unresolvedFinding]) := by
  refine ⟨by decide +kernel, fun h => ?_⟩
  have hrelation := h.relations (reviewBlocker unresolvedFinding) (by decide +kernel)
  exact isBlockerRelation_ne hrelation (by decide +kernel)

end Omapkg.Wire
