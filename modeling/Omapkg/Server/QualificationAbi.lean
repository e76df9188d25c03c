import Omapkg.Server.Qualification
/-!
# What the ABI checks leave out

A consumer is looked at just if it is in the reverse index of a provider, which
has the packages that depend on it and the files that need it, but not those
that need it through another library.
-/

namespace Omapkg.Server.Qualification

open Owned

/-! ## Pushed findings -/

theorem pushFinding_keeps {found : List QualificationFinding × Bool} {value f : QualificationFinding} (hf : f ∈ found.1) :
    f ∈ (pushFinding found value).1 := by
  unfold pushFinding
  split
  · exact hf
  · split
    · exact hf
    · exact List.mem_append_left _ hf

theorem pushFinding_whole {found : List QualificationFinding × Bool} {value : QualificationFinding}
    (h : (pushFinding found value).2 = false) : found.2 = false ∧ value ∈ (pushFinding found value).1 := by
  unfold pushFinding at h ⊢
  split at h
  · next hmem =>
    rw [if_pos hmem]
    exact ⟨h, hmem⟩
  · next hmem =>
    split at h
    · cases h
    · next hroom =>
      rw [if_neg hmem, if_neg hroom]
      exact ⟨h, List.mem_append_right _ List.mem_cons_self⟩

/-- Where nothing was left out, everything that was pushed is there. -/
theorem foldl_pushFinding {values : List QualificationFinding} {found : List QualificationFinding × Bool}
    (h : (values.foldl pushFinding found).2 = false) :
    found.2 = false ∧ ∀ f, f ∈ found.1 ∨ f ∈ values → f ∈ (values.foldl pushFinding found).1 := by
  induction values generalizing found with
  | nil => exact ⟨h, fun f hf => hf.resolve_right List.not_mem_nil⟩
  | cons value rest ih =>
    obtain ⟨hflag, hrest⟩ := ih h
    obtain ⟨hfound, hvalue⟩ := pushFinding_whole hflag
    refine ⟨hfound, ?_⟩
    intro f hf
    apply hrest
    rcases hf with hf | hf
    · exact .inl (pushFinding_keeps hf)
    · rcases List.mem_cons.mp hf with rfl | hf
      · exact .inl hvalue
      · exact .inr hf

/-- A report that was not cut short has everything that was found. -/
theorem mem_findings {input : QualificationInput} (h : (qualifyCandidateUniverse input).truncated = false)
    {f : QualificationFinding} (hf : f ∈ allFindings input) : f ∈ (qualifyCandidateUniverse input).findings :=
  (foldl_pushFinding h).2 f (.inr hf)

/-! ## Needed libraries -/

/-- A chain of files of one class, from an entry to one of the files that are looked for. -/
abbrev Reaches (files targetFiles : List AbiFile) : Needed → Prop := Search.Hits (follow files) (isTarget targetFiles)

theorem rounds_le (files : List AbiFile) (queue : List Needed) :
    Search.rounds (follow files) (queue ++ files.flatMap neededEntries).toFinset queue [] ≤ followRounds files queue := by
  unfold Search.rounds followRounds
  simp

theorem follow_closed {files : List AbiFile} {queue : List Needed} {a b : Needed} (hb : b ∈ follow files a) :
    b ∈ (queue ++ files.flatMap neededEntries).toFinset := by
  obtain ⟨file, hfile, hb⟩ := List.mem_flatMap.mp hb
  have hmem : file ∈ files := List.mem_of_mem_filter hfile
  simp only [List.mem_toFinset, List.mem_append, List.mem_flatMap]
  exact .inr ⟨file, hmem, hb⟩

/-- The provider is needed just if a chain of needed libraries leads to one of its
files; a package without object files needs it by name. -/
theorem providerNeededByConsumer_iff (consumer provider : QualificationPackage) (universe' : List QualificationPackage)
    (previous : Option QualificationPackage) :
    providerNeededByConsumer consumer provider universe' previous = true ↔
      (elfFiles provider ++ (previous.map elfFiles).getD []).filterMap soname ≠ [] ∧
        ((elfFiles consumer = [] ∧
            ∃ name ∈ relationNames consumer.metadata.depends, name ∈ packageIdentityNames provider) ∨
          ∃ needed ∈ (elfFiles consumer).flatMap neededEntries,
            Reaches (universe'.flatMap elfFiles ++ (elfFiles provider ++ (previous.map elfFiles).getD []))
              (elfFiles provider ++ (previous.map elfFiles).getD []) needed) := by
  unfold providerNeededByConsumer
  simp only
  split
  · next hnone => simp [hnone]
  · next hsome =>
    split
    · next helf =>
      rw [and_iff_right hsome]
      simp [helf]
    · next helf =>
      rw [Search.search_iff (fun a _ b hb => follow_closed hb) (fun a ha => by simp [ha]) (rounds_le _ _),
        and_iff_right hsome, or_iff_right fun h => helf h.1]

/-! ## Selected consumers -/

/-- The provider's bytes are not those of its predecessor. -/
def Changed (input : QualificationInput) (provider oldProvider : QualificationPackage) : Prop :=
  input.previous provider = some oldProvider ∧ oldProvider.artifactSha256 ≠ provider.artifactSha256

/-- The consumers of a provider that are looked at. -/
def selectedConsumers (input : QualificationInput) (provider oldProvider : QualificationPackage) :
    List QualificationPackage :=
  reverseConsumers (reverseIndex input.candidates input.architecture) provider (some oldProvider)

/-- No symbol of the consumer that was imported of the provider is lost. -/
def Resolved (input : QualificationInput) (provider oldProvider consumer : QualificationPackage) : Prop :=
  unresolvedImportedSymbols provider consumer (some oldProvider) input.candidates = []

def NoAbiFinding (report : QualificationReport) : Prop := ∀ f ∈ report.findings, f.kind ≠ .abi

theorem dynamicImported_none {item : QualificationPackage} (h : item.abi = none) : dynamicImported item = [] := by
  unfold dynamicImported symbols records
  rw [h]
  rfl

theorem aboutConsumer_mem {input : QualificationInput} {provider oldProvider consumer : QualificationPackage}
    {abi : QualificationAbi} (hprovider : provider ∈ input.candidates) (hchanged : Changed input provider oldProvider)
    (habi : provider.abi = some abi) (hselected : consumer ∈ selectedConsumers input provider oldProvider)
    {f : QualificationFinding}
    (hf : f ∈ consumerFindings input.architecture input.candidates provider oldProvider consumer) : f ∈ allFindings input := by
  unfold allFindings
  refine List.mem_append_right _ (List.mem_flatMap.mpr ⟨provider, hprovider, ?_⟩)
  unfold providerFindings
  rw [hchanged.1]
  simp only [habi]
  rw [if_neg hchanged.2]
  -- types are never checked, so a change of any kind is looked at
  rw [if_pos (.inr (.inr (.inr (.inr trivial))))]
  exact List.mem_append_left _ (List.mem_flatMap.mpr ⟨consumer, hselected, hf⟩)

/-- A consumer that is looked at and of which nothing is found has lost no symbol. -/
theorem resolved_of_selected {input : QualificationInput} (hfindings : NoAbiFinding (qualifyCandidateUniverse input))
    (hwhole : (qualifyCandidateUniverse input).truncated = false) {provider oldProvider consumer : QualificationPackage}
    (hprovider : provider ∈ input.candidates) (hchanged : Changed input provider oldProvider)
    (hselected : consumer ∈ selectedConsumers input provider oldProvider) :
    Resolved input provider oldProvider consumer := by
  have hnone : ∀ f ∈ allFindings input, f.kind ≠ .abi := fun f hf => hfindings f (mem_findings hwhole hf)
  cases habi : provider.abi with
  | none =>
    -- a changed provider without an inventory is found
    refine absurd rfl (hnone (finding input.architecture .abi "abi-coverage" provider
      "Changed candidate provider has no retained ABI inventory." none none) ?_)
    unfold allFindings
    refine List.mem_append_right _ (List.mem_flatMap.mpr ⟨provider, hprovider, ?_⟩)
    unfold providerFindings
    rw [hchanged.1]
    simp only [habi]
    rw [if_neg hchanged.2]
    exact List.mem_cons_self
  | some abi =>
    have hconsumer : ∀ f ∈ consumerFindings input.architecture input.candidates provider oldProvider consumer,
        f.kind ≠ .abi := fun f hf => hnone f (aboutConsumer_mem hprovider hchanged habi hselected hf)
    unfold Resolved
    unfold consumerFindings at hconsumer
    by_cases horigin : consumer.origin ≠ .candidate
    · rw [if_pos horigin] at hconsumer
      exact absurd rfl (hconsumer _ (List.mem_append_right _ List.mem_cons_self))
    · rw [if_neg horigin] at hconsumer
      by_cases hinventory : consumer.abi.isSome = true
      · rw [if_pos hinventory] at hconsumer
        rw [List.eq_nil_iff_forall_not_mem]
        intro imported himported
        exact hconsumer _ (List.mem_append_right _ (List.mem_map_of_mem himported)) rfl
      · have hnoAbi : consumer.abi = none := by simpa using hinventory
        unfold unresolvedImportedSymbols
        rw [dynamicImported_none hnoAbi]
        simp

/-! ## A library behind a library -/

/-- An object file of a package, and the symbols it has. -/
def sampleAbi (path : String) (soname : Option String) (needed : List String) (symbols : List (String × Bool)) :
    QualificationAbi where
  inventorySha256 := some "00"
  artifactSha256 := "01"
  typeAbi := .notChecked
  records := .file ⟨path, some "02", some .elf, some ⟨"EM_X86_64", "ET_DYN", 64, "little", soname, needed, [], [], none⟩⟩ ::
    symbols.map fun (name, defined) =>
      .symbol ⟨path, "dynsym", true, name, defined, "STB_GLOBAL", "STT_FUNC", "STV_DEFAULT", 0, none, none, false⟩

def samplePackageOf (name artifact : String) (depends : List String) (abi : QualificationAbi) : QualificationPackage :=
  ⟨name, name, "1-1", .x86_64, artifact, ⟨depends, []⟩, some abi, .candidate, []⟩

def oldBase : QualificationPackage :=
  samplePackageOf "base" "old" [] (sampleAbi "lib/base" (some "libbase.so.1") [] [("a", true), ("b", true)])

def newBase : QualificationPackage :=
  samplePackageOf "base" "new" [] (sampleAbi "lib/base" (some "libbase.so.1") [] [("b", true)])

def sampleMiddle : QualificationPackage :=
  samplePackageOf "middle" "middle" ["base"] (sampleAbi "lib/middle" (some "libmiddle.so.1") ["libbase.so.1"] [("b", false)])

def sampleProgram (imported : String) : QualificationPackage :=
  samplePackageOf "program" "program" ["middle"] (sampleAbi "bin/program" none ["libmiddle.so.1"] [(imported, false)])

/-- A program needs `base` through `middle` only, and the new bytes of `base` export `b` only. -/
def sampleUniverse (imported : String) : QualificationInput where
  cohortId := "cohort"
  revision := 1
  manifestSha256 := "03"
  architecture := .x86_64
  candidate := [newBase, sampleMiddle, sampleProgram imported]
  baseline := [oldBase]

theorem sample_clean (imported : String) (h : (qualifyCandidateUniverse (sampleUniverse imported)).findings = []) :
    NoAbiFinding (qualifyCandidateUniverse (sampleUniverse imported)) := by
  unfold NoAbiFinding
  rw [h]
  exact fun f hf => nomatch hf

theorem sample_changed (imported : String) :
    Changed (sampleUniverse imported) newBase oldBase :=
  ⟨rfl, by decide⟩

/-- Where nothing is found and nothing left out: no native package that reaches a
changed provider has lost a symbol, just if none has that is not looked at. -/
theorem abi_sound_iff (input : QualificationInput) (hfindings : NoAbiFinding (qualifyCandidateUniverse input))
    (hwhole : (qualifyCandidateUniverse input).truncated = false) :
    (∀ (i j : Fin input.candidates.length) (oldProvider : QualificationPackage), i ≠ j →
        Changed input input.candidates[i] oldProvider → input.candidates[j].architecture ≠ .any →
        providerNeededByConsumer input.candidates[j] input.candidates[i] input.candidates (some oldProvider) = true →
          Resolved input input.candidates[i] oldProvider input.candidates[j]) ↔
      ∀ (i j : Fin input.candidates.length) (oldProvider : QualificationPackage), i ≠ j →
        Changed input input.candidates[i] oldProvider → input.candidates[j].architecture ≠ .any →
        input.candidates[j] ∉ selectedConsumers input input.candidates[i] oldProvider →
          Resolved input input.candidates[i] oldProvider input.candidates[j] := by
  constructor
  · intro h i j oldProvider hij hchanged hnative _
    by_cases hneeded :
        providerNeededByConsumer input.candidates[j] input.candidates[i] input.candidates (some oldProvider) = true
    · exact h i j oldProvider hij hchanged hnative hneeded
    · unfold Resolved unresolvedImportedSymbols
      rw [if_neg hneeded]
  · intro h i j oldProvider hij hchanged hnative _
    by_cases hselected : input.candidates[j] ∈ selectedConsumers input input.candidates[i] oldProvider
    · exact resolved_of_selected hfindings hwhole (List.getElem_mem _) hchanged hselected
    · exact h i j oldProvider hij hchanged hnative hselected

/-- The program, which is not looked at, imports what is still exported. -/
theorem abi_sound_sample :
    Resolved (sampleUniverse "b") newBase oldBase (sampleProgram "b") := by
  have hnothing : (qualifyCandidateUniverse (sampleUniverse "b")).findings = [] := by decide +kernel
  have hwhole : (qualifyCandidateUniverse (sampleUniverse "b")).truncated = false := by decide +kernel
  refine (abi_sound_iff (sampleUniverse "b") (sample_clean "b" hnothing) hwhole).mpr ?_ (⟨0, by decide⟩ : Fin 3)
    (⟨2, by decide⟩ : Fin 3) oldBase (Fin.ne_of_val_ne (by decide)) (sample_changed "b") (by decide) (by decide +kernel)
  -- no package of this universe has lost a symbol of `base`, the one that has a predecessor
  have hnone : ∀ provider ∈ (sampleUniverse "b").candidates, ∀ consumer ∈ (sampleUniverse "b").candidates,
      ∀ oldProvider ∈ (sampleUniverse "b").previous provider,
        unresolvedImportedSymbols provider consumer (some oldProvider) (sampleUniverse "b").candidates = [] := by
    decide +kernel
  intro i j oldProvider _ hchanged _ _
  exact hnone _ (List.getElem_mem _) _ (List.getElem_mem _) oldProvider hchanged.1

/-- The program imports `a`, which `base` does not export any more, and nothing is found. -/
theorem abi_unsound :
    ¬∀ input : QualificationInput, NoAbiFinding (qualifyCandidateUniverse input) →
      (qualifyCandidateUniverse input).truncated = false →
      ∀ (i j : Fin input.candidates.length) (oldProvider : QualificationPackage), i ≠ j →
        Changed input input.candidates[i] oldProvider → input.candidates[j].architecture ≠ .any →
        providerNeededByConsumer input.candidates[j] input.candidates[i] input.candidates (some oldProvider) = true →
          Resolved input input.candidates[i] oldProvider input.candidates[j] := by
  intro h
  have hnothing : (qualifyCandidateUniverse (sampleUniverse "a")).findings = [] := by decide +kernel
  have hwhole : (qualifyCandidateUniverse (sampleUniverse "a")).truncated = false := by decide +kernel
  have hresolved := h (sampleUniverse "a") (sample_clean "a" hnothing) hwhole (⟨0, by decide⟩ : Fin 3)
    (⟨2, by decide⟩ : Fin 3) oldBase (Fin.ne_of_val_ne (by decide)) (sample_changed "a") (by decide) (by decide +kernel)
  revert hresolved
  unfold Resolved
  decide +kernel

end Omapkg.Server.Qualification
