import Omapkg.Server.QualificationAbi
/-!
# The indexed check of symbols

`indexedSymbolsMissing` of `src/src/lib/server/cohort-qualification.ts`: the
statement that looks for lost symbols where a package has too many records to
read. Its rows are the records of an inventory, with NULL for what a record
does not have.
-/

namespace Omapkg.Server.Qualification

/-! ## Columns -/

/-- `a = b` of two columns, which is not true of a NULL. -/
def sqlEq {α : Type} [DecidableEq α] : Option α → Option α → Bool
  | some a, some b => a = b
  | _, _ => false

def sonameColumn (file : AbiFile) : Option String := file.elf.bind (·.soname)

/-- `cf.machine=pf.machine AND cf.bits=pf.bits`. -/
def sameColumns (cf pf : AbiFile) : Bool :=
  sqlEq (cf.elf.map (·.machine)) (pf.elf.map (·.machine)) && sqlEq (cf.elf.map (·.bits)) (pf.elf.map (·.bits))

def removeStt : List Char → List Char
  | [] => []
  | 'S' :: 'T' :: 'T' :: '_' :: r => removeStt r
  | c :: r => c :: removeStt r

/-- `REPLACE(symbol_type,'STT_','')`. -/
def typeColumn (type : String) : String := String.ofList (removeStt type.toList)

/-! ## Rows -/

/-- The package with the rows that its inventory has: without one, none. -/
def indexed (item : QualificationPackage) : QualificationPackage :=
  { item with abi := item.abi.filter fun abi => abi.inventorySha256.any (· ≠ "") }

/-- `Boolean(previous?.abi?.inventorySha256)`. -/
def previousKnown (previous : Option QualificationPackage) : Option QualificationPackage :=
  previous.filter fun item => item.abi.any fun abi => abi.inventorySha256.any (· ≠ "")

/-- `consumer_files` at a path. -/
def filesAt (item : QualificationPackage) (path : String) : List AbiFile := (elfFiles item).filter (·.path = path)

/-- No file is at the path of the import, or one is that passes. -/
def noneOrAny (files : List AbiFile) (p : AbiFile → Bool) : Bool := files = [] || files.any p

/-- `e`, and `oe` before: a row that stands for the import. -/
def rowMatches (item : QualificationPackage) (consumerFiles : List AbiFile) (i e : AbiSymbol) (versionOk : Bool) : Bool :=
  e.dynamic && e.defined && e.name = i.name && versionOk &&
    (typeColumn i.type = "NOTYPE" || typeColumn i.type = typeColumn e.type) &&
    (typeColumn i.type ≠ "OBJECT" || i.size = 0 || i.size = e.size) &&
    noneOrAny consumerFiles fun cf => (filesAt item e.path).any fun pf => sameColumns cf pf

def defaultVersion (e : AbiSymbol) : Bool := e.version.isNone || !e.versionHidden

def oldExports (old : QualificationPackage) (consumerFiles : List AbiFile) (i : AbiSymbol) : Bool :=
  (symbols old).any fun e => rowMatches old consumerFiles i e (defaultVersion e)

def exported (provider : QualificationPackage) (consumerFiles : List AbiFile) (i : AbiSymbol) : Bool :=
  (symbols provider).any fun e => rowMatches provider consumerFiles i e
    (sqlEq i.version e.version || (i.version.isNone && defaultVersion e))

/-- `consumer_needed` joined with `provider_files`. -/
def directlyNeeds (consumer : QualificationPackage) (providerFiles : List AbiFile) : Bool :=
  ((elfFiles consumer).flatMap neededEntries).any fun cn => providerFiles.any fun pf =>
    sonameColumn pf = some cn.soname && pf.elf.any fun elf => elf.machine = cn.machine && elf.bits = cn.bits

def isMissing (consumer provider : QualificationPackage) (previous : Option QualificationPackage) (i : AbiSymbol) : Bool :=
  let consumerFiles := filesAt consumer i.path
  let providerFiles := elfFiles provider ++ (previous.map elfFiles).getD []
  i.dynamic && (!i.defined || i.versionFile.isSome) && !isWeak i &&
    (match i.versionFile with
      | some versionFile => providerFiles.any fun pf =>
        sonameColumn pf = some versionFile && noneOrAny consumerFiles fun cf => sameColumns cf pf
      | none => (consumerFiles = [] || directlyNeeds consumer providerFiles) &&
        previous.all fun old => i.version.isSome || oldExports old consumerFiles i) &&
    !exported provider consumerFiles i

/-- The rows come in the order of the records. -/
def indexedSymbolsMissing (consumer provider : QualificationPackage) (previous : Option QualificationPackage) :
    List AbiSymbol :=
  ((symbols (indexed consumer)).filter (isMissing (indexed consumer) (indexed provider) (previousKnown previous))).take
    maxFindings

/-! ## Inventories -/

/-- A retained inventory: it was parsed, which leaves no object file without its header. -/
structure Retained (item : QualificationPackage) : Prop where
  inventory : ∃ abi, item.abi = some abi ∧ ∃ sha256, abi.inventorySha256 = some sha256 ∧ sha256 ≠ ""
  elf : ∀ file ∈ elfFiles item, ∃ elf, file.elf = some elf ∧ elf.soname ≠ some ""

theorem indexed_retained {item : QualificationPackage} (h : Retained item) : indexed item = item := by
  obtain ⟨abi, habi, sha256, hsha, hne⟩ := h.inventory
  unfold indexed
  rw [habi, Option.filter_some, hsha]
  simp only [Option.any_some, hne, ne_eq, not_false_eq_true, decide_true, if_true]
  rw [← habi]

theorem previousKnown_retained {previous : Option QualificationPackage} (h : ∀ old, previous = some old → Retained old) :
    previousKnown previous = previous := by
  cases previous with
  | none => rfl
  | some old =>
    obtain ⟨abi, habi, sha256, hsha, hne⟩ := (h old rfl).inventory
    unfold previousKnown
    rw [Option.filter_some, habi, Option.any_some, hsha]
    simp [hne]

/-! ## Where the two checks agree -/

/-- What the symbols of a package are like for both checks: visible, in one object file, and of a type that both spell
alike. -/
structure Ordinary (item : QualificationPackage) : Prop where
  visible : ∀ s ∈ symbols item, s.dynamic = true → isHidden s = false
  filed : ∀ s ∈ symbols item, s.dynamic = true → ∃ file ∈ elfFiles item, file.path = s.path
  onePath : ∀ f ∈ elfFiles item, ∀ g ∈ elfFiles item, f.path = g.path → f = g
  types : ∀ s ∈ symbols item, s.dynamic = true → typeColumn s.type = bareType s.type

/-- What an import is like for both checks. -/
structure Bound (consumer : QualificationPackage) (i : AbiSymbol) : Prop where
  version : i.version = none → i.versionFile = none
  needed : ∀ versionFile, i.versionFile = some versionFile → ∃ file ∈ elfFiles consumer,
    file.path = i.path ∧ versionFile ∈ neededBy file

structure Alike (consumer provider : QualificationPackage) (previous : Option QualificationPackage)
    (universe' : List QualificationPackage) : Prop where
  ordinaryConsumer : Ordinary consumer
  ordinaryProvider : Ordinary provider
  ordinaryPrevious : ∀ old, previous = some old → Ordinary old
  bound : ∀ i ∈ dynamicImported consumer, Bound consumer i
  direct : providerNeededByConsumer consumer provider universe' previous = true →
    directlyNeeds consumer (elfFiles provider ++ (previous.map elfFiles).getD []) = true

theorem sameColumns_eq {cf pf : AbiFile} {l r : AbiElf} (hl : cf.elf = some l) (hr : pf.elf = some r) :
    sameColumns cf pf = sameElfClass (some cf) (some pf) := by
  simp [sameColumns, sameElfClass, sqlEq, hl, hr, Bool.and_comm]

/-- The one file of a symbol. -/
theorem filesAt_eq {item : QualificationPackage} (ho : Ordinary item) {s : AbiSymbol} (hs : s ∈ symbols item)
    (hd : s.dynamic = true) : ∃ file ∈ elfFiles item, elfFileForSymbol item s = some file ∧
      ∀ p : AbiFile → Bool, (filesAt item s.path).any p = p file := by
  obtain ⟨file, hfile, hpath⟩ := ho.filed s hs hd
  refine ⟨file, hfile, ?_, fun p => ?_⟩
  · unfold elfFileForSymbol
    cases hfound : (elfFiles item).find? (·.path = s.path) with
    | none =>
      have := List.find?_eq_none.mp hfound file hfile
      simp [hpath] at this
    | some g =>
      have hg : g.path = s.path := by simpa using List.find?_some hfound
      rw [ho.onePath g (List.mem_of_find?_eq_some hfound) file hfile (hg.trans hpath.symm)]
  · rw [Bool.eq_iff_iff, List.any_eq_true]
    constructor
    · rintro ⟨g, hg, hp⟩
      unfold filesAt at hg
      obtain ⟨hmem, hgpath⟩ := List.mem_filter.mp hg
      rwa [ho.onePath g hmem file hfile ((of_decide_eq_true hgpath).trans hpath.symm)] at hp
    · intro hp
      exact ⟨file, List.mem_filter.mpr ⟨hfile, decide_eq_true hpath⟩, hp⟩

theorem noneOrAny_eq {item : QualificationPackage} {file : AbiFile} {s : AbiSymbol}
    (h : ∀ p : AbiFile → Bool, (filesAt item s.path).any p = p file) (p : AbiFile → Bool) :
    noneOrAny (filesAt item s.path) p = p file := by
  have hne : filesAt item s.path ≠ [] := by
    intro hnil
    have := h fun _ => true
    rw [hnil] at this
    cases this
  unfold noneOrAny
  rw [h p, decide_eq_false hne, Bool.false_or]

/-- A row and a record stand for an import alike. -/
theorem rowMatches_iff {item consumer : QualificationPackage} (ho : Ordinary item) (hc : Ordinary consumer)
    (hitem : Retained item) (hconsumer : Retained consumer) {i e : AbiSymbol} (hi : i ∈ symbols consumer)
    (hid : i.dynamic = true) (he : e ∈ symbols item) (hed : e.dynamic = true) (versionOk : Bool) :
    rowMatches item (filesAt consumer i.path) i e versionOk = true ↔
      e.defined = true ∧ e.name = i.name ∧ versionOk = true ∧
        (bareType i.type = "NOTYPE" ∨ bareType i.type = bareType e.type) ∧
        (bareType i.type ≠ "OBJECT" ∨ i.size = 0 ∨ i.size = e.size) ∧
        sameElfClass (elfFileForSymbol consumer i) (elfFileForSymbol item e) = true := by
  obtain ⟨cf, hcf, hcfile, hcany⟩ := filesAt_eq hc hi hid
  obtain ⟨pf, hpf, hpfile, hpany⟩ := filesAt_eq ho he hed
  obtain ⟨l, hl, -⟩ := hconsumer.elf cf hcf
  obtain ⟨r, hr, -⟩ := hitem.elf pf hpf
  unfold rowMatches
  rw [noneOrAny_eq hcany, hpany, sameColumns_eq hl hr, hc.types i hi hid, ho.types e he hed, hcfile, hpfile, hed]
  simp only [Bool.true_and, Bool.and_eq_true, Bool.or_eq_true, decide_eq_true_eq, and_assoc, or_assoc]

theorem importedSymbolMatches_iff (i e : AbiSymbol) : importedSymbolMatches i e = true ↔
    e.name = i.name ∧ (sqlEq i.version e.version || (i.version.isNone && defaultVersion e)) = true ∧
      (bareType i.type = "NOTYPE" ∨ bareType i.type = bareType e.type) ∧
      (bareType i.type ≠ "OBJECT" ∨ i.size = 0 ∨ i.size = e.size) := by
  unfold importedSymbolMatches
  -- SQL has two columns for the version that the server compares as one option
  cases hi : i.version with
  | none =>
    cases he : e.version <;>
      simp [sqlEq, defaultVersion, he, and_assoc, or_iff_not_imp_left, eq_comm (a := i.name)]
  | some v =>
    cases he : e.version <;>
      simp [sqlEq, and_assoc, or_iff_not_imp_left, eq_comm (a := i.name), eq_comm (b := v)]

theorem exportsSymbol_iff (item : QualificationPackage) (consumerFile : Option AbiFile) (i : AbiSymbol) :
    exportsSymbol item consumerFile i = true ↔ ∃ e ∈ symbols item, (e.dynamic = true ∧ e.defined = true ∧
      isHidden e = false) ∧ sameElfClass consumerFile (elfFileForSymbol item e) = true ∧
        importedSymbolMatches i e = true := by
  have hname : ∀ e, importedSymbolMatches i e = true → e.name = i.name := fun e h =>
    ((importedSymbolMatches_iff i e).mp h).1
  unfold exportsSymbol dynamicDefined
  simp only [List.any_eq_true, List.mem_filter, Bool.and_eq_true, Bool.not_eq_true', decide_eq_true_eq]
  constructor
  · rintro ⟨e, ⟨⟨he, ⟨hd, hdef⟩, hvis⟩, -⟩, hclass, hm⟩
    exact ⟨e, he, ⟨hd, hdef, hvis⟩, hclass, hm⟩
  · rintro ⟨e, he, ⟨hd, hdef, hvis⟩, hclass, hm⟩
    exact ⟨e, ⟨⟨he, ⟨hd, hdef⟩, hvis⟩, hname e hm⟩, hclass, hm⟩

section
variable {item consumer : QualificationPackage} (ho : Ordinary item) (hc : Ordinary consumer) (hitem : Retained item)
  (hconsumer : Retained consumer) {i : AbiSymbol} (hi : i ∈ symbols consumer) (hid : i.dynamic = true)
include ho hc hitem hconsumer hi hid

theorem exported_eq : exported item (filesAt consumer i.path) i = exportsSymbol item (elfFileForSymbol consumer i) i := by
  rw [Bool.eq_iff_iff, exportsSymbol_iff]
  unfold exported
  rw [List.any_eq_true]
  constructor
  · rintro ⟨e, he, hm⟩
    have hed : e.dynamic = true := by
      unfold rowMatches at hm
      simp only [Bool.and_eq_true] at hm
      exact hm.1.1.1.1.1.1
    obtain ⟨hdef, hname, hversion, htype, hsize, hclass⟩ := (rowMatches_iff ho hc hitem hconsumer hi hid he hed _).mp hm
    exact ⟨e, he, ⟨hed, hdef, ho.visible e he hed⟩, hclass, (importedSymbolMatches_iff i e).mpr ⟨hname, hversion, htype, hsize⟩⟩
  · rintro ⟨e, he, ⟨hed, hdef, -⟩, hclass, hm⟩
    obtain ⟨hname, hversion, htype, hsize⟩ := (importedSymbolMatches_iff i e).mp hm
    exact ⟨e, he, (rowMatches_iff ho hc hitem hconsumer hi hid he hed _).mpr ⟨hdef, hname, hversion, htype, hsize, hclass⟩⟩

/-- Of an import without a version, the old exports are asked as the new ones are. -/
theorem oldExports_eq (hv : i.version = none) :
    oldExports item (filesAt consumer i.path) i = exportsSymbol item (elfFileForSymbol consumer i) i := by
  rw [← exported_eq ho hc hitem hconsumer hi hid]
  unfold oldExports exported
  simp [hv, sqlEq]

end

/-- A file that is needed directly is reached. -/
theorem needed_of_directly {consumer provider : QualificationPackage} {previous : Option QualificationPackage}
    (universe' : List QualificationPackage)
    (helf : ∀ file ∈ elfFiles provider ++ (previous.map elfFiles).getD [], ∃ elf, file.elf = some elf ∧
      elf.soname ≠ some "")
    (h : directlyNeeds consumer (elfFiles provider ++ (previous.map elfFiles).getD []) = true) :
    providerNeededByConsumer consumer provider universe' previous = true := by
  unfold directlyNeeds at h
  obtain ⟨cn, hcn, h⟩ := List.any_eq_true.mp h
  obtain ⟨pf, hpf, h⟩ := List.any_eq_true.mp h
  obtain ⟨elf, hpelf, hsoname⟩ := helf pf hpf
  simp only [Bool.and_eq_true, decide_eq_true_eq, hpelf, Option.any_some] at h
  have hname : soname pf = some cn.soname := by
    unfold soname
    unfold sonameColumn at h
    rw [h.1, Option.filter_some, if_pos]
    rw [hpelf, Option.bind_some] at h
    rw [decide_eq_true_eq]
    rintro hempty
    rw [hempty] at h
    exact hsoname h.1
  rw [providerNeededByConsumer_iff]
  refine ⟨List.ne_nil_of_mem (List.mem_filterMap.mpr ⟨pf, hpf, hname⟩), .inr ⟨cn, hcn, cn, .refl, ?_⟩⟩
  unfold isTarget matchesOf
  rw [decide_eq_true_eq]
  refine List.ne_nil_of_mem (List.mem_filter.mpr ⟨hpf, ?_⟩)
  simp [hname, Needed.sameClass, hpelf, h.2.1, h.2.2]

section
variable {consumer provider : QualificationPackage} {previous : Option QualificationPackage}
  {universe' : List QualificationPackage} (ha : Alike consumer provider previous universe') (hconsumer : Retained consumer)
  (hprovider : Retained provider) (hprevious : ∀ old, previous = some old → Retained old)
include ha hconsumer hprovider hprevious

omit ha hconsumer in
theorem providerFiles_elf : ∀ file ∈ elfFiles provider ++ (previous.map elfFiles).getD [],
    ∃ elf, file.elf = some elf ∧ elf.soname ≠ some "" := by
  intro file hfile
  rcases List.mem_append.mp hfile with hfile | hfile
  · exact hprovider.elf file hfile
  · cases previous with
    | none => cases hfile
    | some old => exact (hprevious old rfl).elf file hfile

omit hconsumer in
theorem needed_eq_directly : providerNeededByConsumer consumer provider universe' previous =
    directlyNeeds consumer (elfFiles provider ++ (previous.map elfFiles).getD []) := by
  rw [Bool.eq_iff_iff]
  exact ⟨ha.direct, needed_of_directly universe' (providerFiles_elf hprovider hprevious)⟩

/-- The statement takes an import just if the other check reports it. -/
theorem isMissing_eq {i : AbiSymbol} (hi : i ∈ dynamicImported consumer) :
    isMissing consumer provider previous i =
      (providerNeededByConsumer consumer provider universe' previous && isUnresolved provider consumer previous i) := by
  obtain ⟨hsym, himport⟩ := List.mem_filter.mp hi
  simp only [Bool.and_eq_true] at himport
  obtain ⟨⟨hid, himport⟩, -⟩ := himport
  obtain ⟨cf, hcf, hcfile, hcany⟩ := filesAt_eq ha.ordinaryConsumer hsym hid
  obtain ⟨l, hl, -⟩ := hconsumer.elf cf hcf
  have hbound := ha.bound i hi
  have helf := providerFiles_elf hprovider hprevious
  have hexported := exported_eq ha.ordinaryProvider ha.ordinaryConsumer hprovider hconsumer hsym hid
  have hdirect := needed_eq_directly ha hprovider hprevious
  have hne : filesAt consumer i.path ≠ [] := by
    intro hnil
    have := hcany fun _ => true
    rw [hnil] at this
    cases this
  unfold isMissing isUnresolved
  dsimp only
  rw [hexported, hid, himport, Bool.true_and, Bool.true_and, hcfile]
  cases hfile : i.versionFile with
  | some versionFile =>
    have hversion : i.version.isNone = false := by
      rw [Option.isNone_eq_false_iff, Option.isSome_iff_ne_none]
      intro hnone
      rw [hbound.version hnone] at hfile
      cases hfile
    -- the file of the provider that the version names, and its class
    have hattributed : ((elfFiles provider ++ (previous.map elfFiles).getD []).any fun pf =>
        sonameColumn pf = some versionFile && noneOrAny (filesAt consumer i.path) fun cf => sameColumns cf pf) =
        (elfFiles provider ++ (previous.map elfFiles).getD []).any fun file =>
          (file.elf.bind (·.soname)) = some versionFile && sameElfClass (some cf) (some file) := by
      rw [Bool.eq_iff_iff, List.any_eq_true, List.any_eq_true]
      refine exists_congr fun pf => and_congr_right fun hpf => ?_
      obtain ⟨r, hr, -⟩ := helf pf hpf
      rw [noneOrAny_eq hcany, sameColumns_eq hl hr]
      rfl
    have hneeded : ((elfFiles provider ++ (previous.map elfFiles).getD []).any fun file =>
          (file.elf.bind (·.soname)) = some versionFile && sameElfClass (some cf) (some file)) = true →
        providerNeededByConsumer consumer provider universe' previous = true := by
      intro hany
      obtain ⟨pf, hpf, hp⟩ := List.any_eq_true.mp hany
      obtain ⟨r, hr, -⟩ := helf pf hpf
      obtain ⟨file, hmem, hpath, hneeds⟩ := hbound.needed versionFile hfile
      have hsame : file = cf := by
        have hat := hcany fun g => decide (g = file)
        have hin : (filesAt consumer i.path).any (fun g => decide (g = file)) = true :=
          List.any_eq_true.mpr ⟨file, List.mem_filter.mpr ⟨hmem, decide_eq_true hpath⟩, decide_eq_true rfl⟩
        rw [hin] at hat
        exact (of_decide_eq_true hat.symm).symm
      rw [hdirect]
      simp only [Bool.and_eq_true, decide_eq_true_eq] at hp
      refine List.any_eq_true.mpr ⟨⟨versionFile, l.machine, l.bits⟩, List.mem_flatMap.mpr ⟨cf, hcf, ?_⟩,
        List.any_eq_true.mpr ⟨pf, hpf, ?_⟩⟩
      · rw [hsame, neededBy, hl] at hneeds
        rw [neededEntries, hl]
        exact List.mem_map.mpr ⟨versionFile, hneeds, rfl⟩
      · have hclass := hp.2
        simp only [sameElfClass, Option.bind_some, hl, hr, Bool.and_eq_true, decide_eq_true_eq] at hclass
        have hname : r.soname = some versionFile := by simpa [hr] using hp.1
        simp [sonameColumn, hname, hr, hclass.1, hclass.2]
    dsimp only
    rw [hattributed, hversion, Bool.false_and, Bool.not_false, Bool.and_true, Option.all_some]
    cases hany : (elfFiles provider ++ (previous.map elfFiles).getD []).any fun file =>
        (file.elf.bind (·.soname)) = some versionFile && sameElfClass (some cf) (some file) with
    | true => rw [hneeded hany, Bool.true_and]
    | false => simp
  | none =>
    have hprev : (previous.all fun old => i.version.isSome || oldExports old (filesAt consumer i.path) i) =
        !(i.version.isNone && previous.any fun old => !exportsSymbol old (some cf) i) := by
      cases hold : previous with
      | none => simp
      | some old =>
        cases hv : i.version with
        | some version => simp
        | none =>
          rw [Option.all_some, Option.any_some, oldExports_eq (ha.ordinaryPrevious old hold) ha.ordinaryConsumer
            (hprevious old hold) hconsumer hsym hid hv, hcfile]
          simp
    dsimp only
    rw [hprev, decide_eq_false hne, Bool.false_or, ← hdirect, Option.all_none]
    cases isWeak i <;> cases providerNeededByConsumer consumer provider universe' previous <;> simp

end

/-- A program that needs `base` itself. -/
def directProgram : QualificationPackage :=
  samplePackageOf "program" "program" ["base"] (sampleAbi "bin/program" none ["libbase.so.1"] [("a", false)])

end Omapkg.Server.Qualification
