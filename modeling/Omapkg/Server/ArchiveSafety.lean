import Mathlib
import Omapkg.Lib.PathWalk
import Omapkg.Lib.Fallible
import Omapkg.Lib.Utf
/-!
# Archive paths

`src/services/pipeline/archive-safety.ts`: paths of archive entries, and the paths that
their links resolve to. `source-archive.ts` and `vendor-manifest.ts` check lists of entries
alike; they differ in what a link may be (`ArchiveForm`).
-/

namespace Omapkg.Server.Archive

open Utf

/-! ## Paths -/

def slash : UInt16 := 0x2F

/-- `.` -/
def dot : CodeUnits := [0x2E]

/-- `..` -/
def dotdot : CodeUnits := [0x2E, 0x2E]

def maxPathBytes : Nat := 4096

/-- Code points and units agree on what is unsafe, as no unsafe one takes two units. -/
def hasUnsafePathCharacter (value : CodeUnits) : Bool :=
  value.any fun u => u.toNat ≤ 0x1F || u.toNat = 0x7F || u.toNat = 0x5C

/-- `value.split('/')`. -/
def components (value : CodeUnits) : List CodeUnits := value.splitOn slash

/-- `stack.join('/')`. -/
def joined (stack : List CodeUnits) : CodeUnits := [slash].intercalate stack

/-- `value.replace(/^\.\//, '')`. -/
def dropDotSlash (value : CodeUnits) : CodeUnits := if (dot ++ [slash]).isPrefixOf value then value.drop 2 else value

/-- `value.replace(/\/$/, '')`. -/
def dropLastSlash (value : CodeUnits) : CodeUnits := if value.getLast? = some slash then value.dropLast else value

def validateArchivePath (value : CodeUnits) (maxBytes : Nat) : Except String CodeUnits :=
  if value = [] ∨ maxBytes < value.length ∨ hasUnsafePathCharacter value = true then .error "archive path is invalid"
  else
    let normalized := dropDotSlash value
    if normalized = [] ∨ normalized = dot ∨ normalized.head? = some slash ∨
        ((components normalized).any fun part => part = dotdot || part = dot || part = []) = true then
      .error "archive path escapes extraction root"
    else .ok normalized

/-- `target.includes('//')`. -/
def hasDoubleSlash (target : CodeUnits) : Bool := target.tails.any fun rest => [slash, slash].isPrefixOf rest

/-- What the parts of a target leave of a stack of names. -/
def resolveParts : List CodeUnits → List CodeUnits → Except String (List CodeUnits)
  | stack, [] => .ok stack
  | stack, part :: parts =>
    if part = [] ∨ part = dot then resolveParts stack parts
    else if part = dotdot then
      if stack = [] then .error "archive link target escapes extraction root" else resolveParts stack.dropLast parts
    else resolveParts (stack ++ [part]) parts

def resolveArchiveLinkTarget (path target : CodeUnits) (maxBytes : Nat) : Except String CodeUnits :=
  if target = [] ∨ maxBytes < target.length ∨ target.head? = some slash ∨ hasDoubleSlash target = true ∨
      hasUnsafePathCharacter target = true then
    .error "archive link target is unsafe"
  else do
    let stack ← resolveParts (components path).dropLast (components target)
    if stack = [] then .error "archive link target is empty" else validateArchivePath (joined stack) maxBytes

/-! ## Entries -/

inductive ArchiveEntryKind where
  | file | directory | symlink | hardlink
  deriving DecidableEq

structure ArchiveEntry where
  path : CodeUnits
  kind : ArchiveEntryKind
  size : Nat
  target : Option CodeUnits
  deriving DecidableEq

/-- `entry.target ?? ''`. -/
def ArchiveEntry.targetText (entry : ArchiveEntry) : CodeUnits := entry.target.getD []

/-- `byPath.get(path)`; no path is there twice. -/
def entryOf (entries : List ArchiveEntry) (path : CodeUnits) : Option ArchiveEntry :=
  entries.find? fun entry => entry.path = path

/-! ## Resolution -/

/-- The names so far, the parts to come, and the links that were followed. -/
structure Resolution where
  stack : List CodeUnits
  pending : List CodeUnits
  followed : List CodeUnits

/-- The parts that are still to come: those that are pending, and those of the links that were not followed. -/
def partsLeft (byPath : List ArchiveEntry) (s : Resolution) : Nat :=
  s.pending.length + ((byPath.filter fun entry => entry.path ∉ s.followed).map fun entry =>
    (components entry.targetText).length).sum

/-- One round of the loop; none when no part is left. -/
def resolveStep (byPath : List ArchiveEntry) (s : Resolution) : Option (Except String Resolution) :=
  match s.pending with
  | [] => none
  | part :: pending =>
    if part = [] ∨ part = dot then some (.ok { s with pending })
    else if part = dotdot then
      if s.stack = [] then some (.error "archive link target escapes extraction root")
      else some (.ok { s with stack := s.stack.dropLast, pending })
    else
      let stack := s.stack ++ [part]
      match entryOf byPath (joined stack) with
      | none => some (.ok { s with stack, pending })
      | some entry =>
        if entry.kind = .symlink then
          if joined stack ∈ s.followed then some (.error "archive symlink cycle detected")
          else some (.ok ⟨s.stack, components entry.targetText ++ pending, joined stack :: s.followed⟩)
        else if entry.kind ≠ .directory ∧ pending ≠ [] then
          some (.error "archive link target traverses a non-directory")
        else some (.ok { s with stack, pending })

/-- Following a link uses up its parts. -/
theorem partsLeft_follow {byPath : List ArchiveEntry} {followed : List CodeUnits} {entry : ArchiveEntry} {path : CodeUnits}
    (h : entryOf byPath path = some entry) (hp : path ∉ followed) (stack stack' pending : List CodeUnits) :
    partsLeft byPath ⟨stack', components entry.targetText ++ pending, path :: followed⟩ ≤
      partsLeft byPath ⟨stack, pending, followed⟩ := by
  have hmem := List.mem_of_find?_eq_some h
  have hpath : entry.path = path := by simpa using List.find?_some h
  obtain ⟨before, after, rfl⟩ := List.append_of_mem hmem
  have hle (l : List ArchiveEntry) :
      ((l.filter fun e => e.path ∉ path :: followed).map fun e => (components e.targetText).length).sum ≤
        ((l.filter fun e => e.path ∉ followed).map fun e => (components e.targetText).length).sum := by
    induction l with
    | nil => exact Nat.le_refl _
    | cons e l ih =>
      by_cases he : e.path ∈ followed
      · rw [List.filter_cons_of_neg (by simp [he]), List.filter_cons_of_neg (by simp [he])]
        exact ih
      · rw [List.filter_cons_of_pos (p := fun e : ArchiveEntry => decide (e.path ∉ followed)) (by simp [he]),
          List.map_cons, List.sum_cons]
        by_cases hnew : e.path = path
        · rw [List.filter_cons_of_neg (by simp [hnew])]
          exact Nat.le_trans ih (Nat.le_add_left _ _)
        · rw [List.filter_cons_of_pos (by simp [he, hnew]), List.map_cons, List.sum_cons]
          exact Nat.add_le_add_left ih _
  have hbefore := hle before
  have hafter := hle after
  have hout : (entry :: after).filter (fun e => decide (e.path ∉ path :: followed)) =
      after.filter fun e => decide (e.path ∉ path :: followed) := List.filter_cons_of_neg (by simp [hpath])
  have hin : (entry :: after).filter (fun e => decide (e.path ∉ followed)) =
      entry :: after.filter fun e => decide (e.path ∉ followed) := List.filter_cons_of_pos (by simpa [hpath] using hp)
  unfold partsLeft
  simp only [List.filter_append, hout, hin, List.map_append, List.map_cons, List.sum_append, List.sum_cons,
    List.length_append]
  omega

/-- A round leaves fewer parts. -/
theorem resolveStep_decreases {byPath : List ArchiveEntry} {s s' : Resolution}
    (h : resolveStep byPath s = some (.ok s')) : partsLeft byPath s' < partsLeft byPath s := by
  obtain ⟨stack, pending, followed⟩ := s
  unfold resolveStep at h
  cases pending with
  | nil => cases h
  | cons part pending =>
    have hshort (stack' : List CodeUnits) :
        partsLeft byPath ⟨stack', pending, followed⟩ < partsLeft byPath ⟨stack, part :: pending, followed⟩ := by
      unfold partsLeft
      simp only [List.length_cons]
      omega
    dsimp only at h
    split at h
    · cases h
      exact hshort _
    · split at h
      · split at h
        · cases h
        · cases h
          exact hshort _
      · split at h
        · cases h
          exact hshort _
        · rename_i hentry
          split at h
          · split at h
            · cases h
            · rename_i hnew
              cases h
              exact Nat.lt_of_le_of_lt (partsLeft_follow hentry hnew stack stack pending) (hshort stack)
          · split at h
            · cases h
            · cases h
              exact hshort _

/-- The stack at the end of the loop. -/
def resolveLoop (byPath : List ArchiveEntry) (s : Resolution) : Except String (List CodeUnits) :=
  match _h : resolveStep byPath s with
  | none => .ok s.stack
  | some (.error e) => .error e
  | some (.ok s') => resolveLoop byPath s'
termination_by partsLeft byPath s
decreasing_by exact resolveStep_decreases _h

def resolveCanonicalArchivePath (start input : CodeUnits) (byPath : List ArchiveEntry) : Except String CodeUnits := do
  let stack ← resolveLoop byPath ⟨if start = [] then [] else components start, components input, []⟩
  if stack = [] then .error "archive link target is empty" else validateArchivePath (joined stack) maxPathBytes

/-! ## Lists of entries -/

/-- What differs between the checks of two kinds of archives. -/
structure ArchiveForm where
  label : String
  entryLimit : String
  expansionLimit : String
  /-- The check of a link's target by its text. -/
  checkTarget : CodeUnits → CodeUnits → Except String CodeUnits
  /-- Where the resolution of a link starts, and what it resolves. -/
  resolution : ArchiveEntry → CodeUnits × CodeUnits

/-- `path.includes('/') ? path.slice(0, path.lastIndexOf('/')) : ''`. -/
def parentOf (path : CodeUnits) : CodeUnits := (path.reverse.dropWhile (· ≠ slash)).tail.reverse

theorem length_parentOf {path : CodeUnits} (h : slash ∈ path) : (parentOf path).length < path.length := by
  have hle := (List.dropWhile_suffix (fun u => decide (u ≠ slash)) (l := path.reverse)).length_le
  have hpos : 0 < path.length := List.length_pos_of_mem h
  rw [List.length_reverse] at hle
  unfold parentOf
  rw [List.length_reverse, List.length_tail]
  omega

/-- The paths that `parent` goes through. -/
def ancestors (path : CodeUnits) : List CodeUnits :=
  if _h : slash ∈ path then parentOf path :: ancestors (parentOf path) else []
termination_by path.length
decreasing_by exact length_parentOf _h

def maxSafeInteger : Nat := 2 ^ 53 - 1

def normalizePath (value : CodeUnits) : Except String CodeUnits := validateArchivePath (dropLastSlash value) maxPathBytes

section
variable (form : ArchiveForm)

def normalizeEntry (maxExpandedBytes : Nat) (entry : ArchiveEntry) : Except String ArchiveEntry :=
  if maxSafeInteger < entry.size ∨ maxExpandedBytes < entry.size then .error (form.label ++ " entry is invalid")
  else do
    let path ← normalizePath entry.path
    match entry.kind with
    | .symlink => do
      let _ ← form.checkTarget path entry.targetText
      .ok ⟨path, entry.kind, entry.size, entry.target⟩
    | .hardlink => do
      let target ← normalizePath entry.targetText
      .ok ⟨path, entry.kind, entry.size, some target⟩
    | .file | .directory =>
      if entry.targetText ≠ [] then .error (form.label ++ " regular entry has a link target")
      else .ok ⟨path, entry.kind, entry.size, none⟩

/-- One entry against the others. -/
def checkEntry (entries : List ArchiveEntry) (maxExpandedBytes expandedSize : Nat) (entry : ArchiveEntry) :
    Except String Nat :=
  if maxExpandedBytes < expandedSize + entry.size then .error (form.label ++ " exceeds the expansion limit")
  else if (ancestors entry.path).any (fun parent =>
      (entryOf entries parent).any fun parentEntry => parentEntry.kind ≠ .directory) = true then
    .error (form.label ++ " has a non-directory parent")
  else if entry.kind = .hardlink ∧
      ((entryOf entries entry.targetText).any fun target => target.kind = .file) = false then
    .error (form.label ++ " hardlink target is missing or not a regular file")
  else .ok (expandedSize + entry.size)

def checkLink (entries : List ArchiveEntry) (entry : ArchiveEntry) : Except String Unit :=
  if entry.kind = .symlink then do
    let (start, input) := form.resolution entry
    let _ ← resolveCanonicalArchivePath start input entries
    .ok ()
  else .ok ()

def validateEntries (rawEntries : List ArchiveEntry) (maxEntries maxExpandedBytes entryCap expansionCap : Nat) :
    Except String (List ArchiveEntry) :=
  if maxEntries = 0 ∨ entryCap < maxEntries then .error (form.entryLimit ++ " is invalid")
  else if maxExpandedBytes = 0 ∨ expansionCap < maxExpandedBytes then .error (form.expansionLimit ++ " is invalid")
  else if rawEntries = [] then .error (form.label ++ " is empty")
  else if maxEntries < rawEntries.length then .error (form.label ++ " contains too many entries")
  else do
    let entries ← rawEntries.mapM (normalizeEntry form maxExpandedBytes)
    if (entries.map (·.path)).dedup.length ≠ entries.length then .error (form.label ++ " contains duplicate entries")
    else
      let _ ← entries.foldlM (checkEntry form entries maxExpandedBytes) 0
      entries.forM (checkLink form entries)
      .ok entries

end

/-! ## The two forms -/

def maxArchiveEntries : Nat := 20000

def maxArchiveExpandedBytes : Nat := 4 * 1024 * 1024 * 1024

def sourceForm : ArchiveForm where
  label := "source archive"
  entryLimit := "source archive entry limit"
  expansionLimit := "source archive expansion limit"
  checkTarget path target := resolveArchiveLinkTarget path target maxPathBytes
  resolution entry := (parentOf entry.path, entry.targetText)

def validateSourceArchiveEntries (rawEntries : List ArchiveEntry) (maxEntries maxExpandedBytes : Nat) :
    Except String (List ArchiveEntry) :=
  validateEntries sourceForm rawEntries maxEntries maxExpandedBytes maxArchiveEntries maxArchiveExpandedBytes

def resolveVendorLinkTarget (path target : CodeUnits) : Except String CodeUnits :=
  if target = [] ∨ maxPathBytes < target.length ∨ hasUnsafePathCharacter target = true then
    .error "vendor archive link target is unsafe"
  else if target.head? = some slash then normalizePath target.tail
  else resolveArchiveLinkTarget path target maxPathBytes

/-- An absolute link is resolved from the root, a relative one from the directory that holds it. -/
def vendorResolution (entry : ArchiveEntry) : CodeUnits × CodeUnits :=
  if entry.targetText.head? = some slash then ([], entry.targetText.tail) else (parentOf entry.path, entry.targetText)

def vendorForm : ArchiveForm where
  label := "vendor archive"
  entryLimit := "vendor entry limit"
  expansionLimit := "vendor expansion limit"
  checkTarget := resolveVendorLinkTarget
  resolution := vendorResolution

def validateVendorArtifactEntries (rawEntries : List ArchiveEntry) (maxEntries maxExpandedBytes : Nat) :
    Except String (List ArchiveEntry) :=
  validateEntries vendorForm rawEntries maxEntries maxExpandedBytes maxArchiveEntries maxArchiveExpandedBytes

def vendorArtifactLogicalReadPath (entries : List ArchiveEntry) (path : CodeUnits) : Except String CodeUnits := do
  let validated ← validateVendorArtifactEntries entries maxArchiveEntries maxArchiveExpandedBytes
  let normalized ← normalizePath path
  match entryOf validated normalized with
  | none => .error "vendor file is not an approved text inspection path"
  | some entry =>
    match entry.kind with
    | .directory => .error "vendor file is not an approved text inspection path"
    | .hardlink => .ok entry.targetText
    | .symlink =>
      -- `entry.path` is the normalized path
      resolveCanonicalArchivePath (vendorResolution entry).1 (vendorResolution entry).2 validated
    | .file => .ok normalized

end Omapkg.Server.Archive
