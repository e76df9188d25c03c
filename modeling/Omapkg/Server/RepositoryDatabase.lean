import Omapkg.Server.PacmanDesc
import Omapkg.Server.Tar
/-!
# Repository databases

`repositoryDatabaseForPackages` of `src/src/lib/server/repository.ts`: the entries of the
packages as one compressed archive, and what is read back of it.
-/

namespace Omapkg.Server.Desc

open Utf Fallible
open Omapkg.Wire (Graphic graphic_all graphic_fit)

/-- A package and the key of its signature. -/
structure SignedPackage extends RepositoryDatabasePackage where
  signatureKey : String

inductive DatabaseThrow where
  | policy (e : PolicyError)
  | tar (e : Tar.TarThrow)

def packageDir (item : RepositoryDatabasePackage) : String := item.name ++ "-" ++ item.version

section
variable (localeCompare : String → String → Int) (artifacts : String → Option Bytes) (gzip : Bytes → Bytes)

def sortedPackages (packages : List SignedPackage) : List SignedPackage :=
  packages.mergeSort fun a b => localeCompare (packageDir a.toRepositoryDatabasePackage ++ "-" ++ a.architecture.text)
    (packageDir b.toRepositoryDatabasePackage ++ "-" ++ b.architecture.text) ≤ 0

def databaseEntry (item : SignedPackage) : Except DatabaseThrow Tar.Entry :=
  match checkPackage item.toRepositoryDatabasePackage (artifacts item.signatureKey) with
  | .error e => .error (.policy e)
  | .ok signature => .ok ⟨units (packageDir item.toRepositoryDatabasePackage ++ "/desc"),
    descFile item.toRepositoryDatabasePackage signature⟩

def repositoryDatabaseForPackages (packages : List SignedPackage) : Except DatabaseThrow Bytes := do
  let entries ← (sortedPackages localeCompare packages).mapM (databaseEntry artifacts)
  match Tar.tar entries with
  | .error e => .error (.tar e)
  | .ok archive => .ok (gzip archive)

end

theorem graphic_plain {s : String} (h : ∀ c ∈ s.toList, Graphic c) : Tar.Plain (units s) := by
  have hfit := (graphic_fit h).2
  rw [String.ofList_toList, List.any_eq_false] at hfit
  exact ⟨fun hzero => hfit 0 hzero rfl, by rw [toText_units]⟩

/-- What an entry gives back of its package. -/
structure Describes (artifacts : String → Option Bytes) (item : SignedPackage) (entry : Tar.Entry) : Prop where
  path : entry.path = units (packageDir item.toRepositoryDatabasePackage ++ "/desc")
  fields : ∃ signature, artifacts item.signatureKey = some signature ∧
    readDesc entry.body = some (supplied item.toRepositoryDatabasePackage signature)

section
variable {href : JsString → Option JsString} {artifacts : String → Option Bytes}
  (hhref : ∀ input url, href input = some url → url ≠ [] ∧ IsAscii url ∧ url.any isControl = false)

include hhref

theorem databaseEntry_ok {item : SignedPackage} {entry : Tar.Entry}
    (hadmitted : Admitted href item.toRepositoryDatabasePackage)
    (hline : 0x0A ∉ item.description ∧ units (toText item.description) = item.description)
    (h : databaseEntry artifacts item = .ok entry) : Tar.Plain entry.path ∧ Describes artifacts item entry := by
  unfold databaseEntry at h
  split at h
  · cases h
  · next signature hcheck =>
    obtain ⟨input, hinput⟩ := hadmitted.description
    have hread := readDesc_of_fits hhref hadmitted hcheck ⟨catalogDescription_ne_nil hinput, hline⟩
    generalize descFile item.toRepositoryDatabasePackage signature = body at h hread
    cases h
    obtain ⟨value, parsed, hparsed, hname, hversion, -⟩ := hadmitted.metadata
    obtain ⟨-, -, hgraphicName, hgraphicVersion⟩ := graphic_metadata hparsed
    refine ⟨graphic_plain ?_, rfl, signature, (checkPackage_ok hcheck).2.2.2, hread⟩
    rw [packageDir, hname, hversion]
    simp only [String.toList_append, List.forall_mem_append]
    exact ⟨⟨⟨hgraphicName, graphic_all (by decide)⟩, hgraphicVersion⟩, graphic_all (by decide)⟩

/-- The database of packages whose descriptions are one line each: an entry for each package, in the order they are
sorted in, that is read back as what was supplied. -/
theorem repositoryDatabase_read {localeCompare : String → String → Int} {gzip : Bytes → Bytes}
    {packages : List SignedPackage} {database : Bytes}
    (hadmitted : ∀ item ∈ packages, Admitted href item.toRepositoryDatabasePackage)
    (hline : ∀ item ∈ packages, 0x0A ∉ item.description ∧ units (toText item.description) = item.description)
    (h : repositoryDatabaseForPackages localeCompare artifacts gzip packages = .ok database) :
    ∃ archive entries, database = gzip archive ∧ Tar.untar archive = some entries ∧
      (sortedPackages localeCompare packages).Perm packages ∧
        List.Forall₂ (Describes artifacts) (sortedPackages localeCompare packages) entries := by
  obtain ⟨entries, hentries, h⟩ := bind_ok.mp h
  split at h
  · cases h
  · next archive harchive =>
    cases h
    have hperm : (sortedPackages localeCompare packages).Perm packages := List.mergeSort_perm _ _
    have hentry (item : SignedPackage) (hitem : item ∈ sortedPackages localeCompare packages) :=
      fun entry => @databaseEntry_ok _ artifacts hhref item entry (hadmitted item (hperm.mem_iff.mp hitem))
        (hline item (hperm.mem_iff.mp hitem))
    refine ⟨archive, entries, rfl, ?_, hperm, mapM_forall₂ (fun item hitem entry h => (hentry item hitem entry h).2) hentries⟩
    rw [Tar.untar_tar_seen harchive, Option.some.injEq, Tar.map_seen_eq_iff]
    intro entry hmem
    obtain ⟨item, hitem, heq⟩ := mem_mapM hentries hmem
    exact (hentry item hitem entry heq).1

end

def toolSigned : SignedPackage := ⟨toolPackage (units "A tool"), "tool.sig"⟩

/-- A database of one package. -/
theorem repositoryDatabase_read_tool : ∃ database archive entries,
    repositoryDatabaseForPackages (fun _ _ => 0) (fun _ => some [1, 2, 3]) id [toolSigned] = .ok database ∧
      database = id archive ∧ Tar.untar archive = some entries ∧
        List.Forall₂ (Describes fun _ => some [1, 2, 3]) [toolSigned] entries := by
  have hsorted : sortedPackages (fun _ _ => 0) [toolSigned] = [toolSigned] := by simp [sortedPackages]
  have hbody : descFile toolSigned.toRepositoryDatabasePackage [1, 2, 3] =
      encode ((desc toolSigned.toRepositoryDatabasePackage [1, 2, 3]).map fun u => Char.ofNat u.toNat) := by
    rw [descFile, encodeUnits, toText_ascii (by decide +kernel)]
  have hok : (repositoryDatabaseForPackages (fun _ _ => 0) (fun _ => some [1, 2, 3]) id [toolSigned]).toOption.isSome := by
    have hcheck : checkPackage toolSigned.toRepositoryDatabasePackage (some [1, 2, 3]) = .ok [1, 2, 3] := toolPackage_checked _
    rw [repositoryDatabaseForPackages, hsorted, List.mapM_cons, databaseEntry, hcheck]
    dsimp only
    rw [hbody]
    decide +kernel
  cases hdatabase : repositoryDatabaseForPackages (fun _ _ => 0) (fun _ => some [1, 2, 3]) id [toolSigned] with
  | error e =>
    rw [hdatabase] at hok
    cases hok
  | ok database =>
    obtain ⟨archive, entries, harchive, huntar, -, hread⟩ := repositoryDatabase_read exampleHref_plain
      (fun item hitem => by
        rw [List.mem_singleton.mp hitem]
        exact @toolPackage_admitted (units "A tool") (units "A tool") (by decide))
      (fun item hitem => by
        rw [List.mem_singleton.mp hitem]
        exact ⟨by decide, congrArg units (toText_units "A tool")⟩) hdatabase
    exact ⟨_, archive, entries, rfl, harchive, huntar, hsorted ▸ hread⟩

end Omapkg.Server.Desc
