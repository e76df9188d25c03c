import Omapkg.Server.ArchiveWalks
/-!
# Vendor artifacts

Where `vendorArtifactLogicalReadPath` of `src/services/pipeline/vendor-manifest.ts` says that
a link of a vendor artifact leads. The first link is taken from the payload root when it is
absolute; of one that is met later the slash is lost, so it is taken from where it lies.
-/

namespace Omapkg.Server.Archive

open Relation Utf PathWalk

/-! ## Limits -/

section
variable {form : ArchiveForm} {raw entries : List ArchiveEntry}

theorem normalizeEntry_mono {few many : Nat} (hle : few ≤ many) {entry normalized : ArchiveEntry}
    (h : normalizeEntry form few entry = .ok normalized) : normalizeEntry form many entry = .ok normalized := by
  unfold normalizeEntry at h ⊢
  obtain ⟨hsize, h⟩ := Fallible.guard_ok.mp h
  refine Fallible.guard_ok.mpr ⟨?_, h⟩
  omega

theorem checkEntry_mono {few many : Nat} (hle : few ≤ many) {size size' : Nat} {entry : ArchiveEntry}
    (h : checkEntry form entries few size entry = .ok size') : checkEntry form entries many size entry = .ok size' := by
  unfold checkEntry at h ⊢
  obtain ⟨hsize, h⟩ := Fallible.guard_ok.mp h
  refine Fallible.guard_ok.mpr ⟨?_, h⟩
  omega

/-- What passes some limits passes the highest ones. -/
theorem validateEntries_mono {maxEntries maxExpandedBytes entryCap expansionCap : Nat}
    (h : validateEntries form raw maxEntries maxExpandedBytes entryCap expansionCap = .ok entries) :
    validateEntries form raw entryCap expansionCap entryCap expansionCap = .ok entries := by
  unfold validateEntries at h ⊢
  obtain ⟨hentries, h⟩ := Fallible.guard_ok.mp h
  obtain ⟨hexpanded, h⟩ := Fallible.guard_ok.mp h
  obtain ⟨hempty, h⟩ := Fallible.guard_ok.mp h
  obtain ⟨hmany, h⟩ := Fallible.guard_ok.mp h
  have hle : maxExpandedBytes ≤ expansionCap := by omega
  obtain ⟨normalized, hread, h⟩ := Fallible.bind_ok.mp h
  obtain ⟨hdistinct, h⟩ := Fallible.guard_ok.mp h
  obtain ⟨size, hsize, h⟩ := Fallible.bind_ok.mp h
  refine Fallible.guard_ok.mpr ⟨by omega, Fallible.guard_ok.mpr ⟨by omega, Fallible.guard_ok.mpr ⟨hempty, ?_⟩⟩⟩
  refine Fallible.guard_ok.mpr ⟨by omega, Fallible.bind_ok.mpr ⟨normalized, ?_, ?_⟩⟩
  · exact Fallible.mapM_mono (fun _ _ => normalizeEntry_mono hle) hread
  · refine Fallible.guard_ok.mpr ⟨hdistinct, Fallible.bind_ok.mpr ⟨size, ?_, h⟩⟩
    exact Fallible.foldlM_mono (fun _ _ _ => checkEntry_mono hle) hsize

end

/-! ## Where a link leads -/

section
variable {raw entries : List ArchiveEntry} {path : CodeUnits} {link : ArchiveEntry}

/-- The part before the slash of an absolute path is none. -/
theorem pathParts_absolute (path : CodeUnits) : pathParts (slash :: path) = .stay :: pathParts path := by
  have hsplit : components (slash :: path) = [] :: components path := by
    rw [← List.nil_append (slash :: path), components_append, components_single List.not_mem_nil]
    rfl
  rw [pathParts, hsplit]
  rfl

/-- The resolution of an accepted link walks to where it ends. -/
theorem vendorResolution_walks (h : Accepted vendorForm entries) (hmem : link ∈ entries) {result : CodeUnits}
    (hrooted : Rooted entries ⟨(linkOf link.targetText).start (holder link), pathParts link.targetText⟩)
    (hresult : resolveCanonicalArchivePath (vendorResolution link).1 (vendorResolution link).2 entries = .ok result) :
    ReflTransGen (Step (lexicalTree entries)) ⟨(linkOf link.targetText).start (holder link), pathParts link.targetText⟩
      ⟨components result, []⟩ := by
  unfold vendorResolution at hresult
  by_cases habsolute : link.targetText.head? = some slash
  · rw [if_pos habsolute] at hresult
    have htarget : link.targetText = slash :: link.targetText.tail := (List.cons_head?_tail habsolute).symm
    have hstart : (linkOf link.targetText).start (holder link) = [] := by simp [Link.start, linkOf, habsolute]
    rw [hstart, htarget, pathParts_absolute] at hrooted ⊢
    have hfirst : Step (lexicalTree entries) ⟨[], .stay :: pathParts link.targetText.tail⟩
        ⟨[], pathParts link.targetText.tail⟩ := .stay
    refine .head hfirst ?_
    refine resolveCanonicalArchivePath_walks (if_pos rfl) (fun _ hc => absurd hc List.not_mem_nil) ?_ hresult
    exact fun w hw => hrooted w (.head hfirst hw)
  · rw [if_neg habsolute] at hresult
    have hstart : (linkOf link.targetText).start (holder link) = holder link := by simp [Link.start, linkOf, habsolute]
    rw [hstart] at hrooted ⊢
    exact resolveCanonicalArchivePath_walks (components_parentOf (h.paths link hmem)) (h.holder_isName hmem) hrooted hresult

/-- The path of a link reads what the link leads to, when no absolute link is met below the payload root after it; a
hard link reads the file that it names. -/
theorem vendorArtifactLogicalReadPath_reaches {maxEntries maxExpandedBytes : Nat}
    (h : validateVendorArtifactEntries raw maxEntries maxExpandedBytes = .ok entries) (hmem : link ∈ entries)
    (hpath : normalizePath path = .ok link.path) :
    (link.kind = .symlink →
      Rooted entries ⟨(linkOf link.targetText).start (holder link), pathParts link.targetText⟩ →
        ∃ result, vendorArtifactLogicalReadPath raw path = .ok result ∧
          ReflTransGen (Step (lexicalTree entries)) ⟨[], pathParts link.path⟩ ⟨components result, []⟩) ∧
      (link.kind = .hardlink → vendorArtifactLogicalReadPath raw path = .ok link.targetText ∧
        ∃ f ∈ entries, f.path = link.targetText ∧ f.kind = .file) := by
  have haccepted := validateEntries_accepted h
  have hentry := entryOf_mem haccepted.nodup hmem
  have hvalidated : validateVendorArtifactEntries raw maxArchiveEntries maxArchiveExpandedBytes = .ok entries :=
    validateEntries_mono h
  constructor
  · intro hkind hrooted
    obtain ⟨result, hresult⟩ := haccepted.links link hmem hkind
    refine ⟨result, ?_, (haccepted.to_link hmem hkind).trans (vendorResolution_walks haccepted hmem hrooted hresult)⟩
    unfold vendorArtifactLogicalReadPath
    rw [hvalidated, Fallible.ok_bind, hpath, Fallible.ok_bind, hentry]
    simp only [hkind]
    exact hresult
  · intro hkind
    refine ⟨?_, haccepted.hardlinks link hmem hkind⟩
    unfold vendorArtifactLogicalReadPath
    rw [hvalidated, Fallible.ok_bind, hpath, Fallible.ok_bind, hentry]
    simp only [hkind]

end

/-! ## Rooted walks -/

theorem Rooted.head {entries : List ArchiveEntry} {w w' : Walk CodeUnits} (hstep : Step (lexicalTree entries) w w')
    (hnow : MeetsAbsolute entries w → w.place = []) (h : Rooted entries w') : Rooted entries w := by
  intro w'' hsteps habsolute
  rcases hsteps.cases_head with rfl | ⟨next, hnext, hrest⟩
  · exact hnow habsolute
  · rw [hnext.unique hstep] at hrest
    exact h w'' hrest habsolute

theorem rooted_done (entries : List ArchiveEntry) (place : List CodeUnits) : Rooted entries ⟨place, []⟩ := by
  intro w hsteps habsolute
  rcases hsteps.cases_head with rfl | ⟨next, hnext, -⟩
  · obtain ⟨name, parts, l, hparts, -⟩ := habsolute
    cases hparts
  · cases hnext

/-! ## An absolute link that is met below the root -/

/-- `app` leads through `opt/current`, which names a directory by an absolute path. -/
def versionLinks : List ArchiveEntry := [
  ⟨units "app", .symlink, 0, some (units "opt/current/run")⟩,
  ⟨units "opt/current", .symlink, 0, some (units "/opt/v1")⟩, ⟨units "opt/v1/run", .file, 9, none⟩]

def currentLink : ArchiveEntry := ⟨units "opt/current", .symlink, 0, some (units "/opt/v1")⟩

/-- What the archive is to the checks: two places are links, and what is read is another place. -/
theorem versionLinks_facts :
    (validateVendorArtifactEntries versionLinks maxArchiveEntries maxArchiveExpandedBytes = .ok versionLinks ∧
      vendorArtifactLogicalReadPath versionLinks (units "app") = .ok (units "opt/opt/v1/run") ∧
      components (units "opt/v1/run") ≠ components (units "opt/opt/v1/run") ∧ currentLink ∈ versionLinks) ∧
      linkAt versionLinks [units "app"] = some (linkOf (units "opt/current/run")) ∧
      linkAt versionLinks [units "opt"] = none ∧
      linkAt versionLinks [units "opt", units "current"] = some (linkOf (units "/opt/v1")) ∧
      linkAt versionLinks [units "opt", units "v1"] = none ∧
      linkAt versionLinks [units "opt", units "v1", units "run"] = none := by
  decide +kernel

theorem versionLinks_walk : ReflTransGen (Step (lexicalTree versionLinks)) ⟨[], pathParts (units "app")⟩
    ⟨components (units "opt/v1/run"), []⟩ := by
  obtain ⟨-, hlinkApp, hnoneOpt, hlinkCurrent, hnoneV1, hnoneRun⟩ := versionLinks_facts
  let run : PathPart CodeUnits := .name (units "run")
  have happ : Step (lexicalTree versionLinks) ⟨[], [.name (units "app")]⟩
      ⟨[], [.name (units "opt"), .name (units "current"), run]⟩ :=
    .follow (l := linkOf (units "opt/current/run")) hlinkApp
  have hopt : Step (lexicalTree versionLinks) ⟨[], [.name (units "opt"), .name (units "current"), run]⟩
      ⟨[units "opt"], [.name (units "current"), run]⟩ := .enter hnoneOpt trivial
  have hcurrent : Step (lexicalTree versionLinks) ⟨[units "opt"], [.name (units "current"), run]⟩
      ⟨[], [.stay, .name (units "opt"), .name (units "v1"), run]⟩ :=
    .follow (l := linkOf (units "/opt/v1")) hlinkCurrent
  have hroot : Step (lexicalTree versionLinks) ⟨[], [.stay, .name (units "opt"), .name (units "v1"), run]⟩
      ⟨[], [.name (units "opt"), .name (units "v1"), run]⟩ := .stay
  have hlast : Step (lexicalTree versionLinks) ⟨[], [.name (units "opt"), .name (units "v1"), run]⟩
      ⟨[units "opt"], [.name (units "v1"), run]⟩ := .enter hnoneOpt trivial
  have hv1 : Step (lexicalTree versionLinks) ⟨[units "opt"], [.name (units "v1"), run]⟩
      ⟨[units "opt", units "v1"], [run]⟩ := .enter hnoneV1 trivial
  have hrun : Step (lexicalTree versionLinks) ⟨[units "opt", units "v1"], [run]⟩
      ⟨[units "opt", units "v1", units "run"], []⟩ := .enter hnoneRun trivial
  exact .head happ (.head hopt (.head hcurrent (.head hroot (.head hlast (.head hv1 (.head hrun .refl))))))

/-- The link leads to `opt/v1/run`, and `opt/opt/v1/run` is read. -/
theorem versionLinks_misread :
    validateVendorArtifactEntries versionLinks maxArchiveEntries maxArchiveExpandedBytes = .ok versionLinks ∧
      vendorArtifactLogicalReadPath versionLinks (units "app") = .ok (units "opt/opt/v1/run") ∧
      ReflTransGen (Step (lexicalTree versionLinks)) ⟨[], pathParts (units "app")⟩ ⟨components (units "opt/v1/run"), []⟩ ∧
      ¬ReflTransGen (Step (lexicalTree versionLinks)) ⟨[], pathParts (units "app")⟩
        ⟨components (units "opt/opt/v1/run"), []⟩ := by
  obtain ⟨⟨hvalidated, hread, hne, -⟩, -⟩ := versionLinks_facts
  exact ⟨hvalidated, hread, versionLinks_walk, fun hwalk => hne (Step.end_unique versionLinks_walk hwalk)⟩

theorem currentLink_rooted : Rooted versionLinks
    ⟨(linkOf currentLink.targetText).start (holder currentLink), pathParts currentLink.targetText⟩ := by
  obtain ⟨-, -, hnoneOpt, -, hnoneV1, -⟩ := versionLinks_facts
  have hroot : Step (lexicalTree versionLinks) ⟨[], [.stay, .name (units "opt"), .name (units "v1")]⟩
      ⟨[], [.name (units "opt"), .name (units "v1")]⟩ := .stay
  have hopt : Step (lexicalTree versionLinks) ⟨[], [.name (units "opt"), .name (units "v1")]⟩
      ⟨[units "opt"], [.name (units "v1")]⟩ := .enter hnoneOpt trivial
  have hv1 : Step (lexicalTree versionLinks) ⟨[units "opt"], [.name (units "v1")]⟩
      ⟨[units "opt", units "v1"], []⟩ := .enter hnoneV1 trivial
  refine .head hroot (fun _ => rfl) (.head hopt (fun _ => rfl) (.head hv1 ?_ (rooted_done _ _)))
  rintro ⟨name, parts, l, hparts, hlink, -⟩
  cases hparts
  rw [show [units "opt"] ++ [units "v1"] = [units "opt", units "v1"] from rfl, hnoneV1] at hlink
  cases hlink

/-- The absolute link itself is read from the root. -/
theorem currentLink_reaches : ∃ result, vendorArtifactLogicalReadPath versionLinks (units "opt/current") = .ok result ∧
    ReflTransGen (Step (lexicalTree versionLinks)) ⟨[], pathParts currentLink.path⟩ ⟨components result, []⟩ :=
  (vendorArtifactLogicalReadPath_reaches versionLinks_facts.1.1 versionLinks_facts.1.2.2.2 rfl).1 rfl currentLink_rooted

end Omapkg.Server.Archive
