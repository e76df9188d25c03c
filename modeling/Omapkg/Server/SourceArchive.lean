import Omapkg.Server.ArchiveWalks
/-!
# Source archives

What `validateSourceArchiveEntries` of `src/services/pipeline/source-archive.ts` says of the
files that its entries become: links are followed in the tree that is really there, where a
directory may be implied by what lies in it.
-/

namespace Omapkg.Server.Archive

open Relation Utf PathWalk

/-! ## The files -/

/-- The root, a directory that is listed, or one that an entry lies in. -/
def IsDirectory (entries : List ArchiveEntry) (place : List CodeUnits) : Prop :=
  place = [] ∨ (∃ e, entryAt entries place = some e ∧ e.kind = .directory) ∨
    entryAt entries place = none ∧ ∃ e ∈ entries, place <+: components e.path

/-- The tree of the files: directories are entered, and a file where the path ends. -/
def materialised (entries : List ArchiveEntry) : LinkTree CodeUnits :=
  ⟨linkAt entries, fun place parts =>
    IsDirectory entries place ∨ parts = [] ∧ ∃ e, entryAt entries place = some e⟩

/-! ## Links -/

theorem resolveArchiveLinkTarget_relative {path target resolved : CodeUnits} {maxBytes : Nat}
    (h : resolveArchiveLinkTarget path target maxBytes = .ok resolved) : (linkOf target).absolute = false := by
  unfold resolveArchiveLinkTarget at h
  obtain ⟨hok, -⟩ := Fallible.guard_ok.mp h
  simp only [not_or] at hok
  simp [linkOf, hok.2.2.1]

/-- No link of a source archive is absolute. -/
theorem source_rooted {entries : List ArchiveEntry} (h : Accepted sourceForm entries) (w : Walk CodeUnits) :
    Rooted entries w := by
  rintro w' - ⟨name, parts, l, -, hlink, habsolute⟩
  unfold linkAt at hlink
  obtain ⟨e, hentry, he⟩ := Option.bind_eq_some_iff.mp hlink
  split at he
  · rename_i hkind
    cases he
    obtain ⟨resolved, hresolved⟩ := h.targets e (entryAt_some hentry).1 hkind
    rw [resolveArchiveLinkTarget_relative hresolved] at habsolute
    cases habsolute
  · cases he

/-- The path of a link leads to an end. -/
theorem source_safe {entries : List ArchiveEntry} (h : Accepted sourceForm entries) {e : ArchiveEntry} (hmem : e ∈ entries)
    (hkind : e.kind = .symlink) : Safe (lexicalTree entries) ⟨[], pathParts e.path⟩ := by
  obtain ⟨path, hpath⟩ := h.links e hmem hkind
  obtain ⟨resolved, hresolved⟩ := h.targets e hmem hkind
  have hstart : (linkOf e.targetText).start (holder e) = holder e := by
    rw [Link.start, resolveArchiveLinkTarget_relative hresolved]
    rfl
  have hdown := h.to_link hmem hkind
  rw [hstart] at hdown
  have hsteps := resolveCanonicalArchivePath_walks (components_parentOf (h.paths e hmem)) (h.holder_isName hmem)
    (source_rooted h _) hpath
  exact (safe_done _ _).back (hdown.trans hsteps)

/-- The files of an accepted list: nothing lies below a file or a link, a hard link names a file, and a link that is
followed through whatever other links comes to an end and never leaves the root. The resolution of a link ends on
every list. -/
theorem validateSourceArchiveEntries_safe {raw entries : List ArchiveEntry} {maxEntries maxExpandedBytes : Nat}
    (h : validateSourceArchiveEntries raw maxEntries maxExpandedBytes = .ok entries) :
    (∀ e ∈ entries, ∀ f ∈ entries, f.path ++ [slash] <+: e.path → f.kind = .directory) ∧
      (∀ e ∈ entries, e.kind = .hardlink → ∃ f ∈ entries, f.path = e.targetText ∧ f.kind = .file) ∧
      (∀ e ∈ entries, e.kind = .symlink →
        (∀ w, ReflTransGen (Step (materialised entries)) ⟨[], pathParts e.path⟩ w → ¬w.Escapes) ∧
          Acc (fun b a => Step (materialised entries) a b) ⟨[], pathParts e.path⟩) ∧
      ∀ list, WellFounded fun s' s => resolveStep list s = some (.ok s') := by
  have haccepted := validateEntries_accepted h
  refine ⟨haccepted.parents, haccepted.hardlinks, fun e hmem hkind => ?_, fun list => ?_⟩
  · have hfewer : ∀ place parts, (materialised entries).enters place parts → (lexicalTree entries).enters place parts :=
      fun _ _ _ => trivial
    have hsafe : Safe (materialised entries) ⟨[], pathParts e.path⟩ :=
      Safe.mono (show (materialised entries).link = (lexicalTree entries).link from rfl) hfewer
        (source_safe haccepted hmem hkind)
    exact ⟨fun w hw => hsafe.stays hw, hsafe.ends⟩
  · exact Subrelation.wf (fun hstep => resolveStep_decreases hstep) (InvImage.wf (partsLeft list) Nat.lt_wfRel.wf)

/-- A link through a link to the directory above. -/
def sampleLinks : List ArchiveEntry := [
  ⟨units "pkg/lib/", .directory, 0, none⟩, ⟨units "pkg/bin", .symlink, 0, some (units "lib")⟩,
  ⟨units "pkg/lib/a", .file, 3, none⟩, ⟨units "pkg/lib/b", .symlink, 0, some (units "../bin/../lib/a")⟩,
  ⟨units "pkg/c", .hardlink, 0, some (units "pkg/lib/a")⟩]

def sampleValidated : List ArchiveEntry := [
  ⟨units "pkg/lib", .directory, 0, none⟩, ⟨units "pkg/bin", .symlink, 0, some (units "lib")⟩,
  ⟨units "pkg/lib/a", .file, 3, none⟩, ⟨units "pkg/lib/b", .symlink, 0, some (units "../bin/../lib/a")⟩,
  ⟨units "pkg/c", .hardlink, 0, some (units "pkg/lib/a")⟩]

theorem sampleLinks_validated :
    validateSourceArchiveEntries sampleLinks maxArchiveEntries maxArchiveExpandedBytes = .ok sampleValidated := by
  decide +kernel

/-- The files of a package with links. -/
theorem sampleLinks_safe :
    (∀ e ∈ sampleValidated, ∀ f ∈ sampleValidated, f.path ++ [slash] <+: e.path → f.kind = .directory) ∧
      (∀ e ∈ sampleValidated, e.kind = .hardlink → ∃ f ∈ sampleValidated, f.path = e.targetText ∧ f.kind = .file) ∧
      (∀ e ∈ sampleValidated, e.kind = .symlink →
        (∀ w, ReflTransGen (Step (materialised sampleValidated)) ⟨[], pathParts e.path⟩ w → ¬w.Escapes) ∧
          Acc (fun b a => Step (materialised sampleValidated) a b) ⟨[], pathParts e.path⟩) ∧
      ∀ list, WellFounded fun s' s => resolveStep list s = some (.ok s') :=
  validateSourceArchiveEntries_safe sampleLinks_validated

end Omapkg.Server.Archive
