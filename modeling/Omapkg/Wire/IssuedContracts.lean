import Omapkg.Wire.OutputContract
/-!
# Contracts that the server issues

What the server accepts of a contract the worker accepts too, as long as the contract's
names and digests are texts; the file names of its outputs are valid and distinct.
-/

namespace Omapkg.Wire.Contract

open Server.Arch (isWord isPackageName isVersionChar isVersionText isLowerAlnum isNameChar splitRelease)
open Server (Architecture isAlnum)

/-! ## Characters -/

theorem isWord_spec {head rest : Char → Bool} {n : Nat} {s : Text} (h : isWord head rest n s = true) :
    ∃ c cs, s = c :: cs ∧ head c = true ∧ (∀ d ∈ cs, rest d = true) ∧ cs.length ≤ n := by
  cases s with
  | nil => cases h
  | cons c cs =>
    simp only [isWord, Bool.and_eq_true, List.all_eq_true, decide_eq_true_eq] at h
    exact ⟨c, cs, rfl, h.1.1, h.1.2, h.2⟩

theorem isWord_of {head rest : Char → Bool} {n : Nat} {c : Char} {cs : Text} (hc : head c = true)
    (hcs : ∀ d ∈ cs, rest d = true) (hlen : cs.length ≤ n) : isWord head rest n (c :: cs) = true := by
  simp only [isWord, Bool.and_eq_true, List.all_eq_true, decide_eq_true_eq]
  exact ⟨⟨hc, hcs⟩, hlen⟩

theorem isVersionChar_of_pkgver {c : Char} (h : isPkgverChar c = true) : isVersionChar c = true := by
  simp only [isPkgverChar, isVersionChar, Bool.or_eq_true] at h ⊢
  have hsub : "@._+%".toList ⊆ "@._+%~^:-".toList := by decide
  exact h.imp_right fun hc => List.contains_iff_mem.mpr (hsub (List.contains_iff_mem.mp hc))

theorem colon_notPkgver : isPkgverChar ':' = false := by decide

theorem hyphen_notPkgver : isPkgverChar '-' = false := by decide

theorem isAlnum_digit {c : Char} (h : c.isDigit = true) : isAlnum c = true := by
  simp only [Char.isDigit, Bool.and_eq_true, decide_eq_true_eq, ge_iff_le] at h
  simp only [isAlnum, Bool.or_eq_true, Bool.and_eq_true, decide_eq_true_eq]
  exact .inr h

theorem pkgver_char {p : Text} (h : isArchPkgver p = true) {c : Char} (hc : c ∈ p) : isPkgverChar c = true := by
  obtain ⟨d, ds, rfl, hd, hds, -⟩ := isWord_spec h
  rcases List.mem_cons.mp hc with rfl | hc
  · simp only [isPkgverChar, Bool.or_eq_true]
    exact .inl hd
  · exact hds c hc

theorem count_digit {s : Text} (h : isCount s = true) {c : Char} (hc : c ∈ s) : c.isDigit = true := by
  obtain ⟨d, ds, rfl, hd, hds, -⟩ := isWord_spec h
  rcases List.mem_cons.mp hc with rfl | hc
  · exact (Bool.and_eq_true_iff.mp hd).1
  · exact hds c hc

theorem release_char {s : Text} (h : isOutputRelease s = true) {c : Char} (hc : c ∈ s) : c.isDigit = true ∨ c = '.' := by
  unfold isOutputRelease at h
  have hsplit := List.takeWhile_append_dropWhile (p := fun c => decide (c ≠ '.')) (l := s)
  rw [List.span_eq_takeWhile_dropWhile] at h
  cases hdrop : s.dropWhile (fun c => decide (c ≠ '.')) with
  | nil =>
    rw [hdrop] at h hsplit
    rw [← hsplit, List.append_nil] at hc
    exact .inl (count_digit h hc)
  | cons d b =>
    rw [hdrop] at h hsplit
    have hd := List.head?_dropWhile_not (fun c => decide (c ≠ '.')) s
    rw [hdrop] at hd
    simp only [List.head?_cons, decide_eq_false_iff_not, not_not] at hd
    simp only [Bool.and_eq_true] at h
    rw [← hsplit] at hc
    rcases List.mem_append.mp hc with hc | hc
    · exact .inl (count_digit h.1 hc)
    · rcases List.mem_cons.mp hc with rfl | hc
      · exact .inr hd
      · exact .inl (count_digit h.2 hc)

theorem hyphen_notMem_release {s : Text} (h : isOutputRelease s = true) : '-' ∉ s := by
  intro hc
  rcases release_char h hc with hd | hd
  · exact absurd hd (by decide)
  · exact absurd hd (by decide)

theorem colon_notMem_release {s : Text} (h : isOutputRelease s = true) : ':' ∉ s := by
  intro hc
  rcases release_char h hc with hd | hd
  · exact absurd hd (by decide)
  · exact absurd hd (by decide)

theorem isVersionChar_release {s : Text} (h : isOutputRelease s = true) {c : Char} (hc : c ∈ s) : isVersionChar c = true := by
  rcases release_char h hc with hd | rfl
  · simp only [isVersionChar, Bool.or_eq_true]
    exact .inl (isAlnum_digit hd)
  · decide

/-! ## Versions -/

theorem splitRelease_some {s a b : Text} (h : splitRelease s = some (a, b)) : s = a ++ '-' :: b ∧ '-' ∉ b := by
  unfold splitRelease at h
  rw [List.span_eq_takeWhile_dropWhile] at h
  have hsplit := List.takeWhile_append_dropWhile (p := fun c => decide (c ≠ '-')) (l := s.reverse)
  cases hdrop : s.reverse.dropWhile (fun c => decide (c ≠ '-')) with
  | nil =>
    rw [hdrop] at h
    cases h
  | cons d before =>
    rw [hdrop] at h hsplit
    have hd := List.head?_dropWhile_not (fun c => decide (c ≠ '-')) s.reverse
    rw [hdrop] at hd
    simp only [List.head?_cons, decide_eq_false_iff_not, not_not] at hd
    cases h
    constructor
    · have hs := congrArg List.reverse hsplit
      rw [List.reverse_append, List.reverse_cons, List.reverse_reverse, List.append_assoc, hd] at hs
      exact hs.symm
    · intro hmem
      have hne := List.mem_takeWhile_imp (List.mem_reverse.mp hmem)
      simp at hne

theorem splitRelease_append {a b : Text} (h : '-' ∉ b) : splitRelease (a ++ '-' :: b) = some (a, b) := by
  have hspan : (b.reverse ++ '-' :: a.reverse).span (fun c => decide (c ≠ '-')) = (b.reverse, '-' :: a.reverse) := by
    refine span_append (fun c hc => ?_) fun c hc => ?_
    · exact decide_eq_true fun heq => h (heq ▸ List.mem_reverse.mp hc)
    · cases hc
      rfl
  unfold splitRelease
  rw [List.reverse_append, List.reverse_cons, List.append_assoc, List.singleton_append, hspan]
  simp

/-- A version as both programs read it. -/
structure Reads (v front pkgver release : Text) : Prop where
  text : v = front ++ (pkgver ++ '-' :: release)
  front : front = [] ∨ ∃ epoch, epoch ≠ [] ∧ (∀ c ∈ epoch, c.isDigit = true) ∧ front = epoch ++ [':']
  pkgver : isArchPkgver pkgver = true
  release : isOutputRelease release = true
  short : v.length ≤ 128

theorem readVersion_some {s pkgver : Text} (h : readVersion s = some pkgver) :
    ∃ release, s = pkgver ++ '-' :: release ∧ isOutputRelease release = true := by
  unfold readVersion at h
  cases hsplit : splitRelease s with
  | none =>
    rw [hsplit] at h
    cases h
  | some parts =>
    obtain ⟨a, b⟩ := parts
    rw [hsplit] at h
    dsimp only at h
    split at h
    · rename_i hparts
      cases h
      exact ⟨b, (splitRelease_some hsplit).1, hparts.2⟩
    · cases h

theorem isFullVersion_reads {v : Text} (h : isFullVersion (.text v) = true) :
    ∃ front pkgver release, Reads v front pkgver release := by
  simp only [isFullVersion, Bool.and_eq_true, decide_eq_true_eq, Option.any_eq_true] at h
  obtain ⟨⟨pkgver, hgroup, hpkgver⟩, hshort⟩ := h
  have hbare (hread : readVersion v = some pkgver) : ∃ front pkgver release, Reads v front pkgver release := by
    obtain ⟨release, htext, hrelease⟩ := readVersion_some hread
    exact ⟨[], pkgver, release, htext, .inl rfl, hpkgver, hrelease, hshort⟩
  unfold versionGroup at hgroup
  rw [List.span_eq_takeWhile_dropWhile] at hgroup
  have hsplit := List.takeWhile_append_dropWhile (p := Char.isDigit) (l := v)
  split at hgroup
  · rename_i d ds rest heq
    obtain ⟨htake, hdrop⟩ := Prod.mk.inj heq
    rw [htake, hdrop] at hsplit
    rcases Option.or_eq_some_iff.mp hgroup with hrest | ⟨-, hwhole⟩
    · obtain ⟨release, htext, hrelease⟩ := readVersion_some hrest
      have hdigits : ∀ c ∈ d :: ds, c.isDigit = true := by
        intro c hc
        rw [← htake] at hc
        exact List.mem_takeWhile_imp hc
      refine ⟨(d :: ds) ++ [':'], pkgver, release, ?_, .inr ⟨d :: ds, List.cons_ne_nil _ _, hdigits, rfl⟩, hpkgver, hrelease,
        hshort⟩
      rw [← hsplit, htext, List.append_assoc]
      rfl
    · exact hbare hwhole
  · exact hbare hgroup

section
variable {v front pkgver release : Text}

theorem Reads.body (h : Reads v front pkgver release) : isWord isAlnum isVersionChar 127 (pkgver ++ '-' :: release) = true := by
  obtain ⟨c, cs, hcs, hc, hrest, -⟩ := isWord_spec h.pkgver
  have hlen := h.short
  rw [h.text, List.length_append, hcs, List.cons_append, List.length_cons] at hlen
  rw [hcs, List.cons_append]
  refine isWord_of hc (fun d hd => ?_) (by omega)
  rcases List.mem_append.mp hd with hd | hd
  · exact isVersionChar_of_pkgver (hrest d hd)
  · rcases List.mem_cons.mp hd with rfl | hd
    · decide
    · exact isVersionChar_release h.release hd

theorem Reads.no_colon (h : Reads v front pkgver release) : ':' ∉ pkgver ++ '-' :: release := by
  intro hmem
  rcases List.mem_append.mp hmem with hmem | hmem
  · have := pkgver_char h.pkgver hmem
    rw [colon_notPkgver] at this
    cases this
  · rcases List.mem_cons.mp hmem with heq | hmem
    · exact absurd heq (by decide)
    · exact colon_notMem_release h.release hmem

/-- What stands before and after the first colon. -/
theorem Reads.span (h : Reads v front pkgver release) : front = [] ∧ v.span (fun c => decide (c ≠ ':')) = (v, []) ∨
    ∃ epoch, epoch ≠ [] ∧ (∀ c ∈ epoch, c.isDigit = true) ∧ v = epoch ++ ':' :: (pkgver ++ '-' :: release) ∧
      v.span (fun c => decide (c ≠ ':')) = (epoch, ':' :: (pkgver ++ '-' :: release)) := by
  rcases h.front with hfront | ⟨epoch, hne, hdigits, hfront⟩
  · refine .inl ⟨hfront, ?_⟩
    have hv : v = pkgver ++ '-' :: release := by rw [h.text, hfront, List.nil_append]
    have hspan : (v ++ []).span (fun c => decide (c ≠ ':')) = (v, []) :=
      span_append (fun c hc => decide_eq_true fun heq => h.no_colon (hv ▸ heq ▸ hc)) fun c hc => nomatch hc
    rwa [List.append_nil] at hspan
  · have hv : v = epoch ++ ':' :: (pkgver ++ '-' :: release) := by
      rw [h.text, hfront, List.append_assoc]
      rfl
    refine .inr ⟨epoch, hne, hdigits, hv, ?_⟩
    rw [hv]
    refine span_append (fun c hc => decide_eq_true fun heq => ?_) fun c hc => ?_
    · have := hdigits c hc
      rw [heq] at this
      exact absurd this (by decide)
    · cases hc
      rfl

theorem Reads.isReleased (h : Reads v front pkgver release) : isReleased v = true := by
  have hafter : afterColon v = pkgver ++ '-' :: release := by
    unfold afterColon
    rcases h.span with ⟨hfront, hspan⟩ | ⟨epoch, -, -, -, hspan⟩
    · rw [hspan, h.text, hfront]
      rfl
    · rw [hspan]
  obtain ⟨c, cs, hcs, -⟩ := isWord_spec h.pkgver
  have hne : pkgver ≠ [] := by simp [hcs]
  unfold Contract.isReleased
  rw [hafter, splitRelease_append (hyphen_notMem_release h.release)]
  simp [hne, h.pkgver, h.release]

theorem Reads.validArchVersion (h : Reads v front pkgver release) : Worker.validArchVersion v = true := by
  rcases h.span with ⟨hfront, hspan⟩ | ⟨epoch, hne, hdigits, hv, hspan⟩
  · have hv : v = pkgver ++ '-' :: release := by rw [h.text, hfront, List.nil_append]
    have htext : isVersionText v = true := by
      unfold isVersionText
      rw [hv, h.body, Bool.true_or]
    unfold Worker.validArchVersion
    rw [if_neg (by rw [htext]; decide), hspan]
  · have hword : v.span (fun c => c.isDigit) = (epoch, ':' :: (pkgver ++ '-' :: release)) := by
      rw [hv]
      refine span_append hdigits fun c hc => ?_
      cases hc
      decide
    obtain ⟨d, ds, hds⟩ := List.exists_cons_of_ne_nil hne
    have htext : isVersionText v = true := by
      unfold isVersionText
      rw [hword, hds]
      simp only [h.body, Bool.or_true]
    unfold Worker.validArchVersion
    rw [if_neg (by rw [htext]; decide), hspan]
    simpa [hne, h.no_colon] using hdigits

end

/-! ## File names -/

theorem isVersionChar_name {c : Char} (h : isNameChar c = true) : isVersionChar c = true := by
  have hsub : "@._+-".toList ⊆ "@._+%~^:-".toList := by decide
  simp only [isNameChar, isVersionChar, Bool.or_eq_true] at h ⊢
  rcases h with hc | hc
  · refine .inl ?_
    simp only [isLowerAlnum, isAlnum, Bool.or_eq_true] at hc ⊢
    rcases hc with hc | hc
    · exact .inl (.inr hc)
    · exact .inr hc
  · exact .inr (List.contains_iff_mem.mpr (hsub (List.contains_iff_mem.mp hc)))

theorem isAlnum_lower {c : Char} (h : isLowerAlnum c = true) : isAlnum c = true := by
  simp only [isLowerAlnum, isAlnum, Bool.or_eq_true] at h ⊢
  rcases h with hc | hc
  · exact .inl (.inr hc)
  · exact .inr hc

theorem Reads.char {v front pkgver release : Text} (h : Reads v front pkgver release) {c : Char} (hc : c ∈ v) :
    isVersionChar c = true := by
  have hbody : ∀ d ∈ pkgver ++ '-' :: release, isVersionChar d = true := by
    intro d hd
    rcases List.mem_append.mp hd with hd | hd
    · exact isVersionChar_of_pkgver (pkgver_char h.pkgver hd)
    · rcases List.mem_cons.mp hd with rfl | hd
      · decide
      · exact isVersionChar_release h.release hd
  rw [h.text] at hc
  rcases List.mem_append.mp hc with hc | hc
  · rcases h.front with rfl | ⟨epoch, -, hdigits, rfl⟩
    · cases hc
    · rcases List.mem_append.mp hc with hc | hc
      · simp only [isVersionChar, Bool.or_eq_true]
        exact .inl (isAlnum_digit (hdigits c hc))
      · rw [List.mem_singleton.mp hc]
        decide
  · exact hbody c hc

theorem pathBase_eq {path : Text} (hne : path ≠ []) (h : '/' ∉ path) : pathBase path = path := by
  have hnot : ∀ c ∈ path.reverse, decide (c ≠ '/') = true := by
    intro c hc
    exact decide_eq_true fun heq => h (heq ▸ List.mem_reverse.mp hc)
  have hdrop : path.reverse.dropWhile (fun c => decide (c = '/')) = path.reverse := by
    cases hrev : path.reverse with
    | nil => rfl
    | cons c cs =>
      refine List.dropWhile_cons_of_neg ?_
      have := hnot c (hrev ▸ List.mem_cons_self)
      simpa using this
  have htake : path.reverse.takeWhile (fun c => decide (c ≠ '/')) = path.reverse := List.takeWhile_eq_self_iff.mpr hnot
  unfold pathBase
  rw [if_neg hne, hdrop, htake, List.reverse_reverse]
  dsimp only
  rw [if_neg hne]

/-- The architectures of outputs. -/
def IsArch (arch : Text) : Prop := arch = anyText ∨ ∃ target, arch = archText target

theorem IsArch.spec {arch : Text} (h : IsArch arch) :
    (∀ c ∈ arch, isVersionChar c = true) ∧ arch.length ≤ 7 ∧ '-' ∉ arch ++ packageSuffix := by
  have hspec : arch.all isVersionChar = true ∧ arch.length ≤ 7 ∧ (arch ++ packageSuffix).contains '-' = false := by
    rcases h with rfl | ⟨target, rfl⟩
    · exact ⟨by decide, by decide, by decide⟩
    · cases target <;> exact ⟨by decide, by decide, by decide⟩
  refine ⟨List.all_eq_true.mp hspec.1, hspec.2.1, fun hmem => ?_⟩
  rw [List.contains_iff_mem.mpr hmem] at hspec
  cases hspec.2.2

section
variable {name v front pkgver release arch : Text}

theorem validateArtifactFilename_output (hname : isPackageName name = true) (hv : Reads v front pkgver release)
    (harch : IsArch arch) : validateArtifactFilename (outputFilename ⟨name, v, arch⟩) = true := by
  obtain ⟨harchs, hlen, -⟩ := harch.spec
  obtain ⟨c, cs, hcs, hc, hrest, hshort⟩ := isWord_spec hname
  have hstem : outputFilename ⟨name, v, arch⟩ = (name ++ '-' :: (v ++ '-' :: arch)) ++ packageSuffix := by
    simp [outputFilename]
  have hchars : ∀ d ∈ name ++ '-' :: (v ++ '-' :: arch), isVersionChar d = true := by
    intro d hd
    have hyphen : isVersionChar '-' = true := by decide
    rcases List.mem_append.mp hd with hd | hd
    · rw [hcs] at hd
      rcases List.mem_cons.mp hd with rfl | hd
      · simp only [isVersionChar, Bool.or_eq_true]
        exact .inl (isAlnum_lower hc)
      · exact isVersionChar_name (hrest d hd)
    rcases List.mem_cons.mp hd with rfl | hd
    · exact hyphen
    rcases List.mem_append.mp hd with hd | hd
    · exact hv.char hd
    rcases List.mem_cons.mp hd with rfl | hd
    · exact hyphen
    · exact harchs d hd
  have hvlen := hv.short
  have hsuffix : packageSuffix.length = 12 := by decide
  have hlength : (name ++ '-' :: (v ++ '-' :: arch)).length ≤ 201 := by
    simp only [List.length_append, List.length_cons, hcs]
    omega
  have hword : isWord isAlnum isVersionChar 220 (name ++ '-' :: (v ++ '-' :: arch)) = true := by
    rw [hcs, List.cons_append] at hchars hlength ⊢
    rw [List.length_cons] at hlength
    exact isWord_of (isAlnum_lower hc) (fun d hd => hchars d (List.mem_cons_of_mem _ hd)) (by omega)
  have hpattern : isDependencyFilename (outputFilename ⟨name, v, arch⟩) = true := by
    unfold isDependencyFilename
    rw [hstem, List.length_append, Nat.add_sub_cancel, List.take_left, hword, Bool.and_true]
    exact List.isSuffixOf_iff_suffix.mpr (List.suffix_append _ _)
  have hslash : '/' ∉ outputFilename ⟨name, v, arch⟩ := by
    rw [hstem, List.mem_append]
    rintro (hmem | hmem)
    · exact absurd (hchars _ hmem) (by decide)
    · exact absurd hmem (by decide)
  have hne : outputFilename ⟨name, v, arch⟩ ≠ [] := by
    rw [hstem, hcs]
    simp
  unfold validateArtifactFilename
  rw [hpattern, pathBase_eq hne hslash, hstem, List.length_append, hsuffix]
  simp only [Bool.and_true, decide_true, decide_eq_true_eq]
  omega

/-- Names, versions and architectures are told apart by the last hyphens. -/
theorem name_of_filename {name' v' front' pkgver' release' arch' : Text} (hv : Reads v front pkgver release)
    (hv' : Reads v' front' pkgver' release') (harch : IsArch arch) (harch' : IsArch arch')
    (h : outputFilename ⟨name, v, arch⟩ = outputFilename ⟨name', v', arch'⟩) : name = name' := by
  have hlast {a b a' b' : Text} (hb : '-' ∉ b) (hb' : '-' ∉ b') (heq : a ++ '-' :: b = a' ++ '-' :: b') : a = a' := by
    have hsplit := congrArg splitRelease heq
    rw [splitRelease_append hb, splitRelease_append hb'] at hsplit
    exact (Prod.mk.inj (Option.some.inj hsplit)).1
  have hfront {u f p r : Text} (hu : Reads u f p r) : '-' ∉ f ++ p := by
    intro hmem
    rcases List.mem_append.mp hmem with hmem | hmem
    · rcases hu.front with rfl | ⟨epoch, -, hdigits, rfl⟩
      · cases hmem
      · rcases List.mem_append.mp hmem with hmem | hmem
        · exact absurd (hdigits _ hmem) (by decide)
        · exact absurd (List.mem_singleton.mp hmem) (by decide)
    · have hchar := pkgver_char hu.pkgver hmem
      rw [hyphen_notPkgver] at hchar
      cases hchar
  have hparts {n u f p r a : Text} (hu : Reads u f p r) :
      outputFilename ⟨n, u, a⟩ = (((n ++ '-' :: (f ++ p)) ++ '-' :: r) ++ '-' :: (a ++ packageSuffix)) := by
    simp [outputFilename, hu.text]
  rw [hparts hv, hparts hv'] at h
  have harchs := hlast harch.spec.2.2 harch'.spec.2.2 h
  have hreleases := hlast (hyphen_notMem_release hv.release) (hyphen_notMem_release hv'.release) harchs
  exact hlast (hfront hv) (hfront hv') hreleases

end

/-! ## What the worker checks in turn -/

section
variable {job : Job} {seen : List Text}

theorem checkOutputs_ok {outputs : List WorkerOutput}
    (hgood : ∀ o ∈ outputs, isPackageName o.name = true ∧ Worker.validArchVersion o.fullVersion = true ∧
      isReleased o.fullVersion = true ∧ (o.architecture = job.architecture ∨ o.architecture = anyText) ∧
      validateArtifactFilename (outputFilename o) = true)
    (hnodup : (outputs.map (·.name)).Nodup) (hnew : ∀ o ∈ outputs, o.name ∉ seen) :
    checkOutputs job seen outputs = .ok ((outputs.map (·.name)).reverse ++ seen) := by
  induction outputs generalizing seen with
  | nil => rfl
  | cons o outputs ih =>
    obtain ⟨⟨hname, hversion, hreleased, harch, hfile⟩, hrest⟩ := List.forall_mem_cons.mp hgood
    obtain ⟨hfresh, hnews⟩ := List.forall_mem_cons.mp hnew
    rw [List.map_cons, List.nodup_cons] at hnodup
    have hpass : ¬(isPackageName o.name = false ∨ o.name ∈ seen ∨ Worker.validArchVersion o.fullVersion = false ∨
        isReleased o.fullVersion = false ∨ (o.architecture ≠ job.architecture ∧ o.architecture ≠ anyText) ∨
        validateArtifactFilename (outputFilename o) = false) := by
      simp only [hname, hversion, hreleased, hfile, hfresh, not_or, not_and_or, not_not, Bool.true_eq_false,
        not_false_eq_true, true_and, and_true]
      exact harch
    unfold checkOutputs
    rw [if_neg hpass, ih hrest hnodup.2 fun p hp hmem => ?_]
    · simp
    · rcases List.mem_cons.mp hmem with heq | hmem
      · exact hnodup.1 (heq ▸ List.mem_map_of_mem hp)
      · exact hnews p hp hmem

theorem checkGroups_ok {covered keys : List Text} {groups : List (List Text)}
    (hsize : ∀ g ∈ groups, g ≠ [] ∧ g.length ≤ maxBuildOutputs) (hknown : ∀ g ∈ groups, ∀ n ∈ g, n ∈ seen)
    (hdistinct : ∀ g ∈ groups, g.Nodup) (hkeys : (groups.map groupKey).Nodup) (hnew : ∀ g ∈ groups, groupKey g ∉ keys) :
    checkGroups seen covered keys groups = .ok (covered ++ groups.flatten) := by
  induction groups generalizing covered keys with
  | nil => simp [checkGroups]
  | cons g groups ih =>
    rw [List.forall_mem_cons] at hsize hknown hdistinct hnew
    rw [List.map_cons, List.nodup_cons] at hkeys
    unfold checkGroups
    rw [if_neg (by simp [hsize.1.1, Nat.not_lt.mpr hsize.1.2]), if_neg (by simpa [hdistinct.1] using hknown.1),
      if_neg hnew.1, ih hsize.2 hknown.2 hdistinct.2 hkeys.2 fun p hp hmem => ?_]
    · simp
    · rcases List.mem_cons.mp hmem with heq | hmem
      · exact hkeys.1 (heq ▸ List.mem_map_of_mem hp)
      · exact hnew.2 p hp hmem

end

/-! ## Contracts of texts -/

/-- The values that the server does not ask to be texts are texts. -/
structure AllText (item : OutputContract) : Prop where
  cohortId : ∃ s, item.cohortId = .text s
  manifestSha256 : ∃ s, item.manifestSha256 = .text s
  names : ∀ o ∈ item.outputs, ∃ s, o.name = .text s

def ExpectedOutput.plain (output : ExpectedOutput) : WorkerOutput :=
  ⟨output.name.spelled, output.fullVersion.spelled, output.architecture.spelled⟩

theorem asText_some {field : Field} {s : Text} : field.asText = some s ↔ field = .text s := by
  cases field <;> simp [Field.asText]

theorem mapM_some {α β : Type} {f : α → Option β} {g : α → β} {l : List α} (h : ∀ x ∈ l, f x = some (g x)) :
    l.mapM f = some (l.map g) := by
  induction l with
  | nil => rfl
  | cons x l ih =>
    obtain ⟨hx, hl⟩ := List.forall_mem_cons.mp h
    rw [List.mapM_cons, hx, ih hl]
    rfl

theorem exists_of_mapM {α β : Type} {f : α → Option β} {l : List α} {ys : List β} (h : l.mapM f = some ys) :
    ∀ x ∈ l, ∃ y, f x = some y := by
  induction l generalizing ys with
  | nil => exact fun _ hx => absurd hx List.not_mem_nil
  | cons x l ih =>
    rw [List.mapM_cons] at h
    obtain ⟨y, hy, h⟩ := Option.bind_eq_some_iff.mp h
    obtain ⟨zs, hzs, -⟩ := Option.bind_eq_some_iff.mp h
    intro z hz
    rcases List.mem_cons.mp hz with rfl | hz
    · exact ⟨y, hy⟩
    · exact ih hzs z hz

theorem decode_allText {item : OutputContract} {contract : WorkerContract} (h : decode item = some contract) : AllText item := by
  obtain ⟨_, -, h⟩ := Option.bind_eq_some_iff.mp h
  obtain ⟨id, hid, h⟩ := Option.bind_eq_some_iff.mp h
  obtain ⟨_, -, h⟩ := Option.bind_eq_some_iff.mp h
  obtain ⟨digest, hdigest, h⟩ := Option.bind_eq_some_iff.mp h
  obtain ⟨outputs, houtputs, -⟩ := Option.bind_eq_some_iff.mp h
  refine ⟨⟨id, asText_some.mp hid⟩, ⟨digest, asText_some.mp hdigest⟩, fun o ho => ?_⟩
  obtain ⟨output, houtput⟩ := exists_of_mapM houtputs o ho
  obtain ⟨name, hname, -⟩ := Option.bind_eq_some_iff.mp houtput
  exact ⟨name, asText_some.mp hname⟩

/-- What the server asks of a contract. -/
structure Admitted (item : OutputContract) (target : Architecture) (revision : Int) : Prop where
  schemaVersion : item.schemaVersion = some 2
  cohortId : isIdText item.cohortId.spelled = true
  revised : item.revision = some revision
  positive : 1 ≤ revision
  manifestSha256 : isSha256Text item.manifestSha256.spelled = true
  outputs : item.outputs ≠ [] ∧ item.outputs.length ≤ maxBuildOutputs
  expected : ∀ o ∈ item.outputs, isExpected target o = true
  names : (item.outputs.map (·.name)).Nodup
  groups : item.runtimeGroups ≠ [] ∧ item.runtimeGroups.length ≤ maxBuildOutputs
  sizes : ∀ g ∈ item.runtimeGroups, g ≠ [] ∧ g.length ≤ maxBuildOutputs
  distinct : ∀ g ∈ item.runtimeGroups, g.Nodup
  known : ∀ g ∈ item.runtimeGroups, ∀ n ∈ g, n ∈ item.outputs.map (·.name)
  covers : item.runtimeGroups.flatten.dedup.length = item.outputs.length
  keys : (item.runtimeGroups.map fun group => groupKey (group.map Field.spelled)).Nodup

theorem nodup_of_dedup {α : Type} [DecidableEq α] {l : List α} (h : l.dedup.length = l.length) : l.Nodup :=
  List.dedup_eq_self.mp ((List.dedup_sublist l).eq_of_length h)

theorem parseOutputContract_admitted {item parsed : OutputContract} {target : Architecture}
    (h : parseOutputContract item target = .ok parsed) : parsed = item ∧ ∃ revision, Admitted item target revision := by
  unfold parseOutputContract at h
  obtain ⟨hhead, h⟩ := Fallible.guard_ok.mp h
  obtain ⟨hexpected, h⟩ := Fallible.guard_ok.mp h
  obtain ⟨hnames, h⟩ := Fallible.guard_ok.mp h
  obtain ⟨hgroups, h⟩ := Fallible.guard_ok.mp h
  cases h
  simp only [not_or, not_not, Bool.not_eq_false, not_lt, Option.any_eq_true, decide_eq_true_eq] at hhead
  obtain ⟨hschema, hid, ⟨revision, hrevision, hpositive⟩, hdigest, houtputs⟩ := hhead
  simp only [not_or, not_not, not_lt, Bool.or_eq_true, decide_eq_true_eq, List.any_eq_true, not_exists, not_and,
    ne_eq] at hgroups
  obtain ⟨hnone, hmany, heach, hcovers, hkeys⟩ := hgroups
  refine ⟨rfl, revision, hschema, hid, hrevision, hpositive.1, hdigest, houtputs, ?_, nodup_of_dedup ?_, ⟨hnone, hmany⟩,
    fun g hg => ?_, fun g hg => ?_, fun g hg n hn => ?_, hcovers, nodup_of_dedup ?_⟩
  · rw [Bool.not_eq_false] at hexpected
    exact List.all_eq_true.mp hexpected
  · rw [not_not] at hnames
    rw [hnames, List.length_map]
  · exact ⟨(heach g hg).1.1.1, (heach g hg).1.1.2⟩
  · exact nodup_of_dedup (heach g hg).1.2
  · exact (heach g hg).2 n hn
  · rw [hkeys, List.length_map]

theorem isExpected_spec {target : Architecture} {output : ExpectedOutput} (h : isExpected target output = true) :
    isPackageName output.name.spelled = true ∧ output.fullVersion = .text output.fullVersion.spelled ∧
      (∃ front pkgver release, Reads output.fullVersion.spelled front pkgver release) ∧
      (output.architecture = .text (archText target) ∨ output.architecture = .text anyText) := by
  simp only [isExpected, Bool.and_eq_true, Bool.or_eq_true, decide_eq_true_eq] at h
  obtain ⟨⟨hname, hversion⟩, harch⟩ := h
  cases hv : output.fullVersion with
  | text v =>
    rw [hv] at hversion
    exact ⟨hname, rfl, isFullVersion_reads hversion, harch⟩
  | other identity spelled =>
    rw [hv] at hversion
    cases hversion

section
variable {item : OutputContract} {target : Architecture} {revision : Int}

/-- What the worker's decoder makes of a contract of texts. -/
def issued (item : OutputContract) (revision : Int) : WorkerContract where
  schemaVersion := 2
  cohortId := item.cohortId.spelled
  revision := revision
  manifestSha256 := item.manifestSha256.spelled
  outputs := item.outputs.map ExpectedOutput.plain
  runtimeGroups := item.runtimeGroups.map fun group => group.map Field.spelled

theorem text_spelled {field : Field} (h : ∃ s, field = .text s) : field = .text field.spelled := by
  obtain ⟨s, rfl⟩ := h
  rfl

/-- Every name of a group is that of an output. -/
theorem Admitted.group_text (h : Admitted item target revision) (htext : AllText item) {g : List Field}
    (hg : g ∈ item.runtimeGroups) {n : Field} (hn : n ∈ g) : n = .text n.spelled := by
  obtain ⟨o, ho, rfl⟩ := List.mem_map.mp (h.known g hg n hn)
  exact text_spelled (htext.names o ho)

theorem Admitted.decode (h : Admitted item target revision) (htext : AllText item) :
    decode item = some (issued item revision) := by
  have houtputs : item.outputs.mapM ExpectedOutput.decode = some (item.outputs.map ExpectedOutput.plain) := by
    refine mapM_some fun o ho => ?_
    obtain ⟨-, hversion, -, harch⟩ := isExpected_spec (h.expected o ho)
    have harch' : o.architecture = .text o.architecture.spelled := by
      rcases harch with harch | harch <;> rw [harch] <;> rfl
    unfold ExpectedOutput.decode
    rw [asText_some.mpr (text_spelled (htext.names o ho)), asText_some.mpr hversion, asText_some.mpr harch']
    rfl
  have hgroups : (item.runtimeGroups.mapM fun group => group.mapM Field.asText) =
      some (item.runtimeGroups.map fun group => group.map Field.spelled) := by
    refine mapM_some fun g hg => mapM_some fun n hn => ?_
    exact asText_some.mpr (h.group_text htext hg hn)
  unfold Contract.decode
  rw [h.schemaVersion, asText_some.mpr (text_spelled htext.cohortId), h.revised,
    asText_some.mpr (text_spelled htext.manifestSha256), houtputs, hgroups]
  rfl

theorem Admitted.isArch (h : Admitted item target revision) {o : ExpectedOutput} (ho : o ∈ item.outputs) :
    IsArch o.architecture.spelled := by
  obtain ⟨-, -, -, harch⟩ := isExpected_spec (h.expected o ho)
  rcases harch with harch | harch
  · exact .inr ⟨target, by rw [harch]; rfl⟩
  · exact .inl (by rw [harch]; rfl)

theorem Admitted.filename_valid (h : Admitted item target revision) {o : ExpectedOutput} (ho : o ∈ item.outputs) :
    validateArtifactFilename (packageFilename o) = true := by
  obtain ⟨hname, -, ⟨front, pkgver, release, hreads⟩, -⟩ := isExpected_spec (h.expected o ho)
  exact validateArtifactFilename_output hname hreads (h.isArch ho)

theorem Admitted.names_text (h : Admitted item target revision) (htext : AllText item) :
    (item.outputs.map fun o => o.name.spelled).Nodup := by
  have hmap : item.outputs.map (·.name) = (item.outputs.map fun o => o.name.spelled).map Field.text := by
    rw [List.map_map]
    exact List.map_congr_left fun o ho => text_spelled (htext.names o ho)
  have hnodup := h.names
  rw [hmap] at hnodup
  exact List.Nodup.of_map _ hnodup

theorem Admitted.filenames_nodup (h : Admitted item target revision) (htext : AllText item) :
    (item.outputs.map packageFilename).Nodup := by
  have hnames := h.names_text htext
  rw [List.Nodup, List.pairwise_map] at hnames ⊢
  refine hnames.imp_of_mem fun {a b} ha hb hne heq => hne ?_
  obtain ⟨-, -, ⟨front, pkgver, release, hreads⟩, -⟩ := isExpected_spec (h.expected a ha)
  obtain ⟨-, -, ⟨front', pkgver', release', hreads'⟩, -⟩ := isExpected_spec (h.expected b hb)
  exact name_of_filename hreads hreads' (h.isArch ha) (h.isArch hb) heq

theorem Admitted.outputs_checked (h : Admitted item target revision) (htext : AllText item) {job : Job}
    (harch : job.architecture = archText target) :
    checkOutputs job [] (issued item revision).outputs =
      .ok ((item.outputs.map fun o => o.name.spelled).reverse ++ []) := by
  have hnames : (issued item revision).outputs.map (·.name) = item.outputs.map fun o => o.name.spelled := by
    simp [issued, ExpectedOutput.plain]
  rw [← hnames]
  refine checkOutputs_ok (fun o ho => ?_) (by rw [hnames]; exact h.names_text htext) fun o _ => List.not_mem_nil
  obtain ⟨output, houtput, rfl⟩ := List.mem_map.mp ho
  obtain ⟨hname, -, ⟨front, pkgver, release, hreads⟩, hexpected⟩ := isExpected_spec (h.expected output houtput)
  refine ⟨hname, hreads.validArchVersion, hreads.isReleased, ?_, h.filename_valid houtput⟩
  rcases hexpected with hexpected | hexpected
  · exact .inl (by rw [harch]; exact congrArg Field.spelled hexpected)
  · exact .inr (congrArg Field.spelled hexpected)

theorem Admitted.groups_checked (h : Admitted item target revision) (htext : AllText item) :
    checkGroups ((item.outputs.map fun o => o.name.spelled).reverse ++ []) [] [] (issued item revision).runtimeGroups =
      .ok (item.runtimeGroups.flatten.map Field.spelled) := by
  have hflat : (issued item revision).runtimeGroups.flatten = item.runtimeGroups.flatten.map Field.spelled := by
    rw [List.map_flatten]
    rfl
  have hkeys : (issued item revision).runtimeGroups.map groupKey =
      item.runtimeGroups.map fun group => groupKey (group.map Field.spelled) := by
    simp [issued]
  rw [← hflat, ← List.nil_append (issued item revision).runtimeGroups.flatten]
  refine checkGroups_ok (fun g hg => ?_) (fun g hg n hn => ?_) (fun g hg => ?_) (hkeys ▸ h.keys) fun g _ => List.not_mem_nil
  · obtain ⟨group, hgroup, rfl⟩ := List.mem_map.mp hg
    obtain ⟨hne, hlen⟩ := h.sizes group hgroup
    exact ⟨by simpa using hne, by simpa using hlen⟩
  · obtain ⟨group, hgroup, rfl⟩ := List.mem_map.mp hg
    obtain ⟨field, hfield, rfl⟩ := List.mem_map.mp hn
    obtain ⟨o, ho, hname⟩ := List.mem_map.mp (h.known group hgroup field hfield)
    rw [List.append_nil, List.mem_reverse]
    exact List.mem_map.mpr ⟨o, ho, congrArg Field.spelled hname⟩
  · obtain ⟨group, hgroup, rfl⟩ := List.mem_map.mp hg
    refine List.Nodup.map_on (fun a ha b hb heq => ?_) (h.distinct group hgroup)
    rw [h.group_text htext hgroup ha, h.group_text htext hgroup hb, heq]

theorem Admitted.covered (h : Admitted item target revision) (htext : AllText item) :
    (item.runtimeGroups.flatten.map Field.spelled).dedup.length = item.outputs.length := by
  have hmap : item.runtimeGroups.flatten = (item.runtimeGroups.flatten.map Field.spelled).map Field.text := by
    rw [List.map_map]
    refine (List.map_id _).symm.trans (List.map_congr_left fun n hn => ?_)
    obtain ⟨g, hg, hmem⟩ := List.mem_flatten.mp hn
    exact h.group_text htext hg hmem
  have hinj : Function.Injective Field.text := fun a b hab => Field.text.inj hab
  have hcovers := h.covers
  rw [hmap, List.dedup_map_of_injective hinj, List.length_map] at hcovers
  exact hcovers

/-- A contract that the server accepts is accepted by the worker of every binary job of its architecture, and its
outputs have valid and distinct file names, exactly when its names and digests are texts. -/
theorem issued_contract_iff {parsed : OutputContract} (hparsed : parseOutputContract item target = .ok parsed) :
    (∃ contract, decode parsed = some contract ∧
        (∀ job : Job, job.surface = .binary → job.architecture = archText target → 1 ≤ job.attempt →
          validateOutputContract job contract = .ok ()) ∧
        contract.outputs.map outputFilename = parsed.outputs.map packageFilename ∧
        (∀ output ∈ contract.outputs, validateArtifactFilename (outputFilename output) = true) ∧
        (contract.outputs.map outputFilename).Nodup) ↔ AllText parsed := by
  obtain ⟨rfl, revision, h⟩ := parseOutputContract_admitted hparsed
  constructor
  · rintro ⟨contract, hdecoded, -⟩
    exact decode_allText hdecoded
  · intro htext
    have hnames : (issued parsed revision).outputs.map outputFilename = parsed.outputs.map packageFilename := by
      simp only [issued, List.map_map]
      rfl
    refine ⟨issued parsed revision, h.decode htext, fun job hsurface harch hattempt => ?_, hnames, fun o ho => ?_, ?_⟩
    · have hhead : ¬((issued parsed revision).schemaVersion ≠ 2 ∨ job.surface ≠ .binary ∨ job.attempt < 1 ∨
          isIdText (issued parsed revision).cohortId = false ∨ (issued parsed revision).revision < 1 ∨
          isSha256Text (issued parsed revision).manifestSha256 = false ∨ (issued parsed revision).outputs = [] ∨
          maxBuildOutputs < (issued parsed revision).outputs.length) := by
        have hpositive := h.positive
        have hmany := h.outputs.2
        simp only [issued, hsurface, h.cohortId, h.manifestSha256, List.map_eq_nil_iff, h.outputs.1, List.length_map]
        simp only [not_true_eq_false, false_or, Bool.true_eq_false, ne_eq, not_or, not_lt]
        omega
      have hgroups : ¬((issued parsed revision).runtimeGroups = [] ∨
          maxBuildOutputs < (issued parsed revision).runtimeGroups.length) := by
        simp only [issued, List.map_eq_nil_iff, h.groups.1, List.length_map, false_or, not_lt]
        exact h.groups.2
      unfold validateOutputContract
      rw [if_neg hhead, h.outputs_checked htext harch, Fallible.ok_bind, if_neg hgroups, h.groups_checked htext,
        Fallible.ok_bind, h.covered htext, if_neg (by simp)]
    · obtain ⟨output, houtput, rfl⟩ := List.mem_map.mp ho
      exact h.filename_valid houtput
    · rw [hnames]
      exact h.filenames_nodup htext

end

/-! ## A contract with a number for its cohort -/

def numberedContract : OutputContract where
  schemaVersion := some 2
  cohortId := .other 0 "7".toList
  revision := some 1
  manifestSha256 := .text (List.replicate 64 'a')
  outputs := [⟨.text "app".toList, .text "1:1.0-2".toList, .text "x86_64".toList⟩]
  runtimeGroups := [[.text "app".toList]]

def namedContract : OutputContract := { numberedContract with cohortId := .text "cohort".toList }

theorem numberedContract_parsed : parseOutputContract numberedContract .x86_64 = .ok numberedContract := by
  rw [parseOutputContract, if_neg (by decide +kernel), if_neg (by decide +kernel), if_neg (by decide +kernel),
    if_neg (by decide +kernel)]

theorem namedContract_parsed : parseOutputContract namedContract .x86_64 = .ok namedContract := by
  rw [parseOutputContract, if_neg (by decide +kernel), if_neg (by decide +kernel), if_neg (by decide +kernel),
    if_neg (by decide +kernel)]

/-- The server accepts the contract, and the worker cannot read it. -/
theorem numbered_contract_refused : parseOutputContract numberedContract .x86_64 = .ok numberedContract ∧
    decode numberedContract = none := ⟨numberedContract_parsed, rfl⟩

theorem named_contract_issued :
    (∃ contract, decode namedContract = some contract ∧
        (∀ job : Job, job.surface = .binary → job.architecture = archText .x86_64 → 1 ≤ job.attempt →
          validateOutputContract job contract = .ok ()) ∧
        contract.outputs.map outputFilename = namedContract.outputs.map packageFilename ∧
        (∀ output ∈ contract.outputs, validateArtifactFilename (outputFilename output) = true) ∧
        (contract.outputs.map outputFilename).Nodup) ↔ AllText namedContract :=
  issued_contract_iff namedContract_parsed

end Omapkg.Wire.Contract
