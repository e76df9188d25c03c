import Mathlib
import Omapkg.Lib.Fallible
import Omapkg.Lib.Hash
import Omapkg.Lib.TextEncoder
import Omapkg.Server.Urls
/-!
# Recipe captures

`verifyRecipeCapture` of `src/src/lib/recipe-capture.ts`: the files of a recipe
directory against the tree of a commit, and where its symbolic links lead.
-/

namespace Omapkg.Server.Recipe

open Utf Fallible Hash

structure InputObject where
  sha256 : String
  size : Nat

inductive FileMode where
  | regular | executable | symlink
  deriving DecidableEq

def FileMode.text : FileMode → JsString
  | .regular => units "100644"
  | .executable => units "100755"
  | .symlink => units "120000"

structure RecipeFile where
  path : JsString
  mode : FileMode
  object : InputObject

/-- A capture as `parseRecipeCapture` leaves it: no two files have one path. -/
structure RecipeCapture where
  commit : String
  directory : JsString
  gitCommit : InputObject
  gitTrees : List InputObject
  files : List RecipeFile
  paths : (files.map (·.path)).Nodup

def maxRecipeFiles : Nat := 2048

/-- What the check runs with: the bytes of an object, where they can be read, and the two digests. -/
structure RecipeEnv where
  read : InputObject → Option Bytes
  sha1 : Bytes → String
  sha256 : Bytes → String

/-! ## Texts -/

def slash : UInt16 := 0x2F

/-- `split('/')`. -/
def splitPath (s : JsString) : List JsString := s.splitOn slash

/-- `join('/')`. -/
def joinPath (parts : List JsString) : JsString := [slash].intercalate parts

def dot : JsString := units "."

def dotDot : JsString := units ".."

/-- `toLowerCase() === '.git'`; no character outside ASCII has one of these in lower case. -/
def isGit (part : JsString) : Bool :=
  part.map (fun u => if 0x41 ≤ u.toNat && u.toNat ≤ 0x5A then u + 0x20 else u) = units ".git"

/-- `recipeFilePath`, where it throws nothing. -/
def isRecipeFilePath (value : JsString) : Bool :=
  (encodeUnits value).length ≤ 512 && value.all (fun u => 0x1F < u.toNat && u.toNat ≠ 0x7F && u.toNat ≠ 0x5C) &&
    (splitPath value).all fun part => !part.isEmpty && part ≠ dot && part ≠ dotDot && !isGit part

def recipeFilePath (value : JsString) : Except String JsString :=
  if isRecipeFilePath value then .ok value else .error "Unsafe recipe file path"

/-- `new TextDecoder('utf-8', { fatal: true })`, which drops a byte order mark at the start. -/
def textDecode (bytes : Bytes) : Except String JsString :=
  let rest := if [0xEF, 0xBB, 0xBF] <+: bytes then bytes.drop 3 else bytes
  if encode (decode rest) = rest then .ok (decodeUnits rest) else .error "The encoded data was not valid for encoding utf-8"

/-! ## Git objects -/

def load (env : RecipeEnv) (ref : InputObject) : Except String Bytes :=
  match if ref.size = 0 then some [] else env.read ref with
  | none => .error "unavailable"
  | some bytes =>
    if bytes.length ≠ ref.size ∨ env.sha256 bytes ≠ ref.sha256 then .error "Recipe object checksum changed" else .ok bytes

def gitHash (env : RecipeEnv) (kind : String) (bytes : Bytes) : String :=
  env.sha1 (encode (kind ++ " " ++ toString bytes.length ++ "\x00").toList ++ bytes)

structure TreeEntry where
  name : JsString
  mode : JsString
  sha : String

section
local instance : LawfulBEq JsString := inferInstance

/-- The loop of `parseTree` over the bytes that are left; each entry takes some. -/
def parseTreeFrom : Nat → Bytes → List JsString → Except String (List TreeEntry)
  | _, [], _ => .ok []
  | 0, _, _ => .error "Truncated recipe Git tree"
  | fuel + 1, bytes, names =>
    match bytes.idxOf? 0x20 with
    | none => .error "Truncated recipe Git tree"
    | some space =>
      let after := bytes.drop (space + 1)
      match after.idxOf? 0 with
      | none => .error "Truncated recipe Git tree"
      | some stop =>
        if after.length < stop + 21 then .error "Truncated recipe Git tree"
        else do
          let mode ← textDecode (bytes.take space)
          let name ← textDecode (after.take stop)
          if name = [] ∨ slash ∈ name ∨ name ∈ names then .error "Invalid recipe Git tree name"
          else do
            let sha := String.ofList (((after.drop (stop + 1)).take 20).flatMap hexByte)
            let rest ← parseTreeFrom fuel (after.drop (stop + 21)) (names ++ [name])
            .ok (⟨name, mode, sha⟩ :: rest)

end

def parseTree (bytes : Bytes) : Except String (List TreeEntry) := parseTreeFrom bytes.length bytes []

/-- `/^tree [a-f0-9]{40}$/`. -/
def treeLine (line : JsString) : Option String :=
  let cs := (toText line).toList
  if cs.take 5 = "tree ".toList ∧ (cs.drop 5).length = 40 ∧ (cs.drop 5).all isLowerHex = true then
    some (String.ofList (cs.drop 5)) else none

/-- The first line of a commit; without a line feed, all but its last byte. -/
def firstLine (commit : Bytes) : Bytes :=
  match commit.idxOf? 0x0A with
  | some i => commit.take i
  | none => commit.dropLast

abbrev Trees := List (String × List TreeEntry)

def loadTrees (env : RecipeEnv) (refs : List InputObject) : Except String Trees :=
  refs.foldlM (fun (trees : Trees) ref => do
    let bytes ← load env ref
    let sha := gitHash env "tree" bytes
    if trees.any (·.1 = sha) then .error "Duplicate recipe Git tree proof"
    else do
      let entries ← parseTree bytes
      .ok (trees ++ [(sha, entries)])) []

/-! ## The walk -/

structure Walk where
  visitedDirectories : Nat
  used : List String
  expected : List (JsString × TreeEntry)

def Walk.use (w : Walk) (sha : String) : Walk := { w with used := if w.used.contains sha then w.used else w.used ++ [sha] }

/-- `tree`. -/
def Walk.tree (trees : Trees) (sha : String) (w : Walk) : Except String (List TreeEntry × Walk) :=
  match trees.find? (·.1 = sha) with
  | none => .error "Recipe Git tree proof is incomplete"
  | some entry => .ok (entry.2, w.use sha)

def treeMode : JsString := units "40000"

/-- The loop over the parts of the directory. -/
def findDirectory (trees : Trees) : List JsString → String → Walk → Except String (String × Walk)
  | [], root, w => .ok (root, w)
  | part :: parts, root, w => do
    let (entries, w) ← w.tree trees root
    match entries.find? (fun entry => entry.name = part && entry.mode = treeMode) with
    | none => .error "Recipe directory is absent from commit"
    | some entry => findDirectory trees parts entry.sha w

def Walk.set (w : Walk) (path : JsString) (entry : TreeEntry) : Walk :=
  { w with expected := w.expected.filter (·.1 ≠ path) ++ [(path, entry)] }

/-- `walk`; a tree of more than 32 levels is refused, so `fuel` is enough. -/
def walk (trees : Trees) : Nat → String → JsString → Walk → Except String Walk
  | 0, _, _, _ => .error "Recipe tree is too deep"
  | fuel + 1, sha, pre, w =>
    if maxRecipeFiles < w.visitedDirectories + 1 then .error "Recipe tree has too many directories"
    else do
      let (entries, w) ← Walk.tree trees sha { w with visitedDirectories := w.visitedDirectories + 1 }
      entries.foldlM (fun w entry => do
        let path ← recipeFilePath (pre ++ entry.name)
        if entry.mode = treeMode then
          if 32 < (splitPath path).length then .error "Recipe tree is too deep"
          else walk trees fuel entry.sha (path ++ [slash]) w
        else if maxRecipeFiles ≤ w.expected.length then .error "Recipe tree has too many files"
        else .ok (w.set path entry)) w

def walkFuel : Nat := 33

/-! ## Files and links -/

/-- A link and its target. -/
abbrev Links := List (JsString × JsString)

def Links.get (links : Links) (path : JsString) : Option JsString := (links.find? (·.1 = path)).map (·.2)

def metadataPaths : List JsString := [units "PKGBUILD", units ".SRCINFO", units ".omarchy/package.json"]

def fileLink (file : RecipeFile) (bytes : Bytes) : Except String Links :=
  if file.mode = .symlink then (textDecode bytes).map fun target => [(file.path, target)] else .ok []

/-- The loop over the files. -/
def checkFiles (env : RecipeEnv) (expected : List (JsString × TreeEntry)) :
    List RecipeFile → Except String (Links × List (JsString × Bytes))
  | [] => .ok ([], [])
  | file :: files => do
    let bytes ← load env file.object
    match expected.find? (·.1 = file.path) with
    | none => .error "Recipe file differs from original Git blob"
    | some (_, entry) =>
      if entry.mode ≠ file.mode.text ∨ entry.sha ≠ gitHash env "blob" bytes then
        .error "Recipe file differs from original Git blob"
      else do
        let link ← fileLink file bytes
        if metadataPaths.contains file.path ∧ (file.mode = .symlink ∨ 2 * 1024 * 1024 < bytes.length) then
          .error "Recipe metadata must be a bounded regular file"
        else do
          let retained := if metadataPaths.contains file.path then [(file.path, bytes)] else []
          let (links, others) ← checkFiles env expected files
          .ok (link ++ links, retained ++ others)

/-- `startsWith('/')`. -/
def isAbsolute (target : JsString) : Bool := target.head? = some slash

/-- The loop over what remains of a link. It follows a link only where it has followed at most 32 before. -/
def followLink (links : Links) (parts remaining : List JsString) (visited : List JsString) : Except String Unit :=
  match remaining with
  | [] => .ok ()
  | part :: remaining =>
    if part = dotDot then
      if parts = [] then .error "Recipe symlink escapes directory" else followLink links parts.dropLast remaining visited
    else if part = dot then followLink links parts remaining visited
    else if isRecipeFilePath part = false then .error "Unsafe recipe file path"
    else
      let resolved := joinPath (parts ++ [part])
      match links.get resolved with
      | none => followLink links (parts ++ [part]) remaining visited
      | some link =>
        if _h : visited.contains resolved = true ∨ 32 < visited.length ∨ isAbsolute link = true then
          .error "Unsafe or cyclic recipe symlink"
        else followLink links parts (splitPath link ++ remaining) (visited ++ [resolved])
termination_by (33 - visited.length, remaining.length)
decreasing_by all_goals simp_wf; omega

/-- The loop over the links. -/
def checkLink (links : Links) (path target : JsString) : Except String Unit :=
  if target = [] ∨ isAbsolute target = true ∨ 512 < target.length then .error "Unsafe recipe symlink"
  else followLink links (splitPath path).dropLast (splitPath target) [path]

def checkLinks (links : Links) : Except String Unit := links.forM fun link => checkLink links link.1 link.2

/-- `verifyRecipeCapture` up to the loop over the links. -/
def verifyFiles (env : RecipeEnv) (value : RecipeCapture) : Except String (Links × List (JsString × Bytes)) := do
  let commit ← load env value.gitCommit
  if gitHash env "commit" commit ≠ value.commit then .error "Recipe Git commit proof differs"
  else do
    let first ← textDecode (firstLine commit)
    match treeLine first with
    | none => .error "Recipe commit has no root tree"
    | some root => do
      let trees ← loadTrees env value.gitTrees
      let (root, w) ← findDirectory trees (if value.directory = [] then [] else splitPath value.directory) root ⟨0, [], []⟩
      let w ← walk trees walkFuel root [] w
      if w.used.length ≠ trees.length ∨ w.expected.length ≠ value.files.length then
        .error "Recipe directory inventory is incomplete or has extra files"
      else checkFiles env w.expected value.files

def verifyRecipeCapture (env : RecipeEnv) (value : RecipeCapture) : Except String (List (JsString × Bytes)) := do
  let (links, retained) ← verifyFiles env value
  checkLinks links
  .ok retained

/-! ## Where a link leads -/

section

variable {env : RecipeEnv} {files : List RecipeFile}

/-- The bytes of an object, as `load` has them. -/
def objectBytes (env : RecipeEnv) (ref : InputObject) : Bytes := if ref.size = 0 then [] else (env.read ref).getD []

/-- The target of a link as it stands in its bytes. -/
def RecipeFile.target (env : RecipeEnv) (file : RecipeFile) : JsString := decodeUnits (objectBytes env file.object)

/-- A walk along a path: the directory that was reached, and what remains to be walked. -/
structure Place where
  dir : List JsString
  rest : List JsString

def IsDirectory (files : List RecipeFile) (path : List JsString) : Prop :=
  path = [] ∨ ∃ file ∈ files, joinPath path ++ [slash] <+: file.path

/-- A file or a directory of the recipe. -/
def Present (files : List RecipeFile) (path : List JsString) : Prop :=
  IsDirectory files path ∨ ∃ file ∈ files, file.path = joinPath path

/-- A part of a path that names an entry of a directory. -/
def IsName (part : JsString) : Prop := part ≠ [] ∧ part ≠ dot ∧ part ≠ dotDot

/-- The file that a name leads to is a link. -/
structure LinkAt (files : List RecipeFile) (path : List JsString) (file : RecipeFile) : Prop where
  mem : file ∈ files
  symlink : file.mode = .symlink
  path : file.path = joinPath path

/-- One step of a walk in the files of a recipe, as a system takes it: `..` is the parent of the directory that was
reached, and a link is walked from the directory that holds it. -/
inductive Step (env : RecipeEnv) (files : List RecipeFile) : Place → Place → Prop
  | stay {dir rest : List JsString} {part : JsString} : part = [] ∨ part = dot → Step env files ⟨dir, part :: rest⟩ ⟨dir, rest⟩
  | up {dir rest : List JsString} {name : JsString} : Step env files ⟨dir ++ [name], dotDot :: rest⟩ ⟨dir, rest⟩
  | enter {dir rest : List JsString} {name : JsString} : IsName name → (∀ file, ¬LinkAt files (dir ++ [name]) file) →
    Present files (dir ++ [name]) → (rest ≠ [] → IsDirectory files (dir ++ [name])) →
    Step env files ⟨dir, name :: rest⟩ ⟨dir ++ [name], rest⟩
  | follow {dir rest : List JsString} {name : JsString} {file : RecipeFile} : IsName name →
    LinkAt files (dir ++ [name]) file → isAbsolute (file.target env) = false →
    Step env files ⟨dir, name :: rest⟩ ⟨dir, splitPath (file.target env) ++ rest⟩

/-- The next step of a walk is out of the recipe: above it, or from the root of the system. -/
inductive Leaves (env : RecipeEnv) (files : List RecipeFile) : Place → Prop
  | above {rest : List JsString} : Leaves env files ⟨[], dotDot :: rest⟩
  | root {dir rest : List JsString} {name : JsString} {file : RecipeFile} : IsName name →
    LinkAt files (dir ++ [name]) file → isAbsolute (file.target env) = true → Leaves env files ⟨dir, name :: rest⟩

/-- Every walk from a place ends, and none leaves the recipe. -/
inductive Safe (env : RecipeEnv) (files : List RecipeFile) : Place → Prop
  | intro {p : Place} : ¬Leaves env files p → (∀ q, Step env files p q → Safe env files q) → Safe env files p

theorem Safe.run {p q : Place} (h : Safe env files p) (hrun : Relation.ReflTransGen (Step env files) p q) : ¬Leaves env files q := by
  induction hrun using Relation.ReflTransGen.head_induction_on with
  | refl =>
    obtain ⟨hstays, -⟩ := h
    exact hstays
  | head hstep _ ih =>
    obtain ⟨-, hnext⟩ := h
    exact ih (hnext _ hstep)

theorem Safe.ends {p : Place} (h : Safe env files p) : Acc (fun q p => Step env files p q) p := by
  induction h with
  | intro _ _ ih => exact .intro _ ih

theorem isName_of_isRecipeFilePath {part : JsString} (h : isRecipeFilePath part ≠ false) (hdot : part ≠ dot)
    (hdotDot : part ≠ dotDot) : IsName part := by
  refine ⟨?_, hdot, hdotDot⟩
  rintro rfl
  exact h (by decide)

theorem not_isName_dot : ¬IsName dot := fun h => h.2.1 rfl

theorem not_isName_dotDot : ¬IsName dotDot := fun h => h.2.2 rfl

/-- What the links of a capture are to its files. -/
structure LinksOf (env : RecipeEnv) (files : List RecipeFile) (links : Links) : Prop where
  absent : ∀ path file, links.get (joinPath path) = none → ¬LinkAt files path file
  present : ∀ path link, links.get (joinPath path) = some link → ∃ file, LinkAt files path file ∧ file.target env = link
  unique : ∀ path file file', LinkAt files path file → LinkAt files path file' → file = file'

theorem step_cases {dir rest : List JsString} {part : JsString} {q : Place} (h : Step env files ⟨dir, part :: rest⟩ q) :
    ((part = [] ∨ part = dot) ∧ q = ⟨dir, rest⟩) ∨
      (∃ front name, part = dotDot ∧ dir = front ++ [name] ∧ q = ⟨front, rest⟩) ∨
      (IsName part ∧ (∀ file, ¬LinkAt files (dir ++ [part]) file) ∧ Present files (dir ++ [part]) ∧ q = ⟨dir ++ [part], rest⟩) ∨
      ∃ file, IsName part ∧ LinkAt files (dir ++ [part]) file ∧ q = ⟨dir, splitPath (file.target env) ++ rest⟩ := by
  generalize hp : Place.mk dir (part :: rest) = p at h
  cases h with
  | stay hpart =>
    cases hp
    exact .inl ⟨hpart, rfl⟩
  | up =>
    cases hp
    exact .inr (.inl ⟨_, _, rfl, rfl, rfl⟩)
  | enter hname hlink hpresent _ =>
    cases hp
    exact .inr (.inr (.inl ⟨hname, hlink, hpresent, rfl⟩))
  | follow hname hlink _ =>
    cases hp
    exact .inr (.inr (.inr ⟨_, hname, hlink, rfl⟩))

theorem leaves_cases {dir rest : List JsString} {part : JsString} (h : Leaves env files ⟨dir, part :: rest⟩) :
    (dir = [] ∧ part = dotDot) ∨
      ∃ file, IsName part ∧ LinkAt files (dir ++ [part]) file ∧ isAbsolute (file.target env) = true := by
  cases h with
  | above => exact .inl ⟨rfl, rfl⟩
  | root hname hlink habsolute => exact .inr ⟨_, hname, hlink, habsolute⟩

/-- Each step of a walk is one of the loop, so a loop that ends well leaves no walk a way out. -/
theorem followLink_safe {links : Links} (hlinks : LinksOf env files links) {parts remaining visited : List JsString}
    (h : followLink links parts remaining visited = .ok ()) : Safe env files ⟨parts, remaining⟩ := by
  fun_induction followLink links parts remaining visited with
  | case1 => exact .intro (fun h => nomatch h) (fun _ h => nomatch h)
  | case2 => cases h
  | case3 parts visited remaining hparts ih =>
    refine .intro (fun hleaves => ?_) fun q hstep => ?_
    · obtain ⟨hnil, -⟩ | ⟨_, hname, -⟩ := leaves_cases hleaves
      · exact hparts hnil
      · exact not_isName_dotDot hname
    · obtain ⟨hpart, -⟩ | ⟨front, name, -, rfl, rfl⟩ | ⟨hname, -⟩ | ⟨_, hname, -⟩ := step_cases hstep
      · exact absurd hpart (by decide)
      · simpa using ih h
      · exact absurd hname not_isName_dotDot
      · exact absurd hname not_isName_dotDot
  | case4 parts visited remaining hdotDot ih =>
    refine .intro (fun hleaves => ?_) fun q hstep => ?_
    · obtain ⟨-, hpart⟩ | ⟨_, hname, -⟩ := leaves_cases hleaves
      · exact hdotDot hpart
      · exact not_isName_dot hname
    · obtain ⟨-, rfl⟩ | ⟨_, _, hpart, -⟩ | ⟨hname, -⟩ | ⟨_, hname, -⟩ := step_cases hstep
      · exact ih h
      · exact absurd hpart hdotDot
      · exact absurd hname not_isName_dot
      · exact absurd hname not_isName_dot
  | case5 => cases h
  | case6 parts visited part remaining hdotDot hdot hpath resolved hget ih =>
    have hname := isName_of_isRecipeFilePath hpath hdot hdotDot
    refine .intro (fun hleaves => ?_) fun q hstep => ?_
    · obtain ⟨-, hpart⟩ | ⟨file, -, hlink, -⟩ := leaves_cases hleaves
      · exact hdotDot hpart
      · exact hlinks.absent _ file hget hlink
    · obtain ⟨hpart, -⟩ | ⟨_, _, hpart, -⟩ | ⟨-, -, -, rfl⟩ | ⟨file, -, hlink, -⟩ := step_cases hstep
      · exact absurd hpart (not_or.mpr ⟨hname.1, hdot⟩)
      · exact absurd hpart hdotDot
      · exact ih h
      · exact absurd hlink (hlinks.absent _ file hget)
  | case7 => cases h
  | case8 parts visited part remaining hdotDot hdot hpath resolved link hget hok ih =>
    have hname := isName_of_isRecipeFilePath hpath hdot hdotDot
    -- the loop and the walk replace the name by the target of the same file
    obtain ⟨file, hlink, rfl⟩ := hlinks.present _ link hget
    refine .intro (fun hleaves => ?_) fun q hstep => ?_
    · obtain ⟨-, hpart⟩ | ⟨other, -, hother, habsolute⟩ := leaves_cases hleaves
      · exact hdotDot hpart
      · rw [← hlinks.unique _ _ _ hlink hother] at habsolute
        exact hok (.inr (.inr habsolute))
    · obtain ⟨hpart, -⟩ | ⟨_, _, hpart, -⟩ | ⟨-, hnone, -⟩ | ⟨other, -, hother, rfl⟩ := step_cases hstep
      · exact absurd hpart (not_or.mpr ⟨hname.1, hdot⟩)
      · exact absurd hpart hdotDot
      · exact absurd hlink (hnone file)
      · rw [← hlinks.unique _ _ _ hlink hother]
        exact ih h

/-! ## The links of a capture -/

theorem load_ok {ref : InputObject} {bytes : Bytes} (h : load env ref = .ok bytes) : bytes = objectBytes env ref := by
  rw [load] at h
  split at h
  · cases h
  · next bytes' hread =>
    split at h
    · cases h
    · cases h
      rw [objectBytes]
      split
      · next hsize => simpa [hsize] using hread.symm
      · next hsize => simp [show env.read ref = some bytes by simpa [hsize] using hread]

/-- The bytes of a text start with a byte order mark. -/
def HasMark (bytes : Bytes) : Prop := [0xEF, 0xBB, 0xBF] <+: bytes

theorem textDecode_ok {bytes : Bytes} {text : JsString} (h : textDecode bytes = .ok text) (hmark : ¬HasMark bytes) :
    text = decodeUnits bytes := by
  unfold HasMark at hmark
  simp only [textDecode, if_neg hmark] at h
  split at h
  · exact (Except.ok.inj h).symm
  · cases h

/-- No link of a capture starts with a byte order mark. -/
def Unmarked (env : RecipeEnv) (files : List RecipeFile) : Prop :=
  ∀ file ∈ files, file.mode = .symlink → ¬HasMark (objectBytes env file.object)

def fileLinks (env : RecipeEnv) (files : List RecipeFile) : Links :=
  (files.filter fun file => file.mode = .symlink).map fun file => (file.path, file.target env)

theorem fileLink_ok {file : RecipeFile} {links : Links} (h : fileLink file (objectBytes env file.object) = .ok links)
    (hmark : file.mode = .symlink → ¬HasMark (objectBytes env file.object)) : links = fileLinks env [file] := by
  rw [fileLink] at h
  split at h
  · next hmode =>
    cases hdecode : textDecode (objectBytes env file.object) with
    | error e =>
      rw [hdecode] at h
      cases h
    | ok text =>
      rw [hdecode] at h
      obtain rfl := Except.ok.inj h
      rw [textDecode_ok hdecode (hmark hmode)]
      simp [fileLinks, hmode, RecipeFile.target]
  · next hmode =>
    obtain rfl := Except.ok.inj h
    simp [fileLinks, hmode]

theorem checkFiles_links {expected : List (JsString × TreeEntry)} {links : Links} {retained : List (JsString × Bytes)}
    (h : checkFiles env expected files = .ok (links, retained)) (hmark : Unmarked env files) : links = fileLinks env files := by
  induction files generalizing links retained with
  | nil =>
    cases h
    rfl
  | cons file files ih =>
    rw [checkFiles] at h
    obtain ⟨bytes, hbytes, h⟩ := bind_ok.mp h
    split at h
    · cases h
    · split at h
      · cases h
      · obtain ⟨link, hlink, h⟩ := bind_ok.mp h
        split at h
        · cases h
        · obtain ⟨⟨others, _⟩, hothers, h⟩ := bind_ok.mp h
          cases h
          rw [ih hothers fun file hfile => hmark file (List.mem_cons_of_mem _ hfile)]
          obtain rfl := load_ok hbytes
          rw [fileLink_ok hlink fun hmode => hmark file List.mem_cons_self hmode]
          rw [fileLinks, fileLinks, fileLinks, ← List.map_append, ← List.filter_append]
          rfl

theorem mem_fileLinks {path link : JsString} :
    (path, link) ∈ fileLinks env files ↔ ∃ file ∈ files, file.mode = .symlink ∧ file.path = path ∧ file.target env = link := by
  simp [fileLinks, and_assoc]

theorem linksOf_fileLinks (hpaths : (files.map (·.path)).Nodup) : LinksOf env files (fileLinks env files) where
  absent path file h hlink := by
    rw [Links.get, Option.map_eq_none_iff, List.find?_eq_none] at h
    exact h (file.path, file.target env) (mem_fileLinks.mpr ⟨file, hlink.mem, hlink.symlink, rfl, rfl⟩)
      (decide_eq_true hlink.path)
  present path link h := by
    obtain ⟨entry, hfind, rfl⟩ := Option.map_eq_some_iff.mp h
    have hpath : entry.1 = joinPath path := by simpa using List.find?_some hfind
    obtain ⟨file, hmem, hmode, hfile, htarget⟩ := mem_fileLinks.mp (List.mem_of_find?_eq_some hfind)
    exact ⟨file, ⟨hmem, hmode, hfile.trans hpath⟩, htarget⟩
  unique path file file' h h' := List.inj_on_of_nodup_map hpaths h.mem h'.mem (h.path.trans h'.path.symm)

/-! ## What a walk arrives at -/

theorem joinPath_append {dir : List JsString} {name : JsString} (h : dir ≠ []) :
    joinPath (dir ++ [name]) = joinPath dir ++ slash :: name := by
  induction dir with
  | nil => exact absurd rfl h
  | cons part dir ih =>
    cases dir with
    | nil => simp [joinPath]
    | cons part' dir =>
      have hrest := ih (by simp)
      rw [joinPath, joinPath] at hrest ⊢
      rw [List.cons_append, List.cons_append, List.intercalate_cons_cons, ← List.cons_append, hrest, List.intercalate_cons_cons]
      simp

/-- The parent of what is there is a directory. -/
theorem isDirectory_parent {dir : List JsString} {name : JsString} (h : Present files (dir ++ [name])) : IsDirectory files dir := by
  by_cases hdir : dir = []
  · exact .inl hdir
  · have hjoin : joinPath dir ++ [slash] <+: joinPath (dir ++ [name]) := by
      rw [joinPath_append hdir]
      exact ⟨name, by simp⟩
    obtain (hnil | ⟨file, hfile, hbelow⟩) | ⟨file, hfile, hpath⟩ := h
    · exact absurd hnil (by simp)
    · exact .inr ⟨file, hfile, hjoin.trans ((List.prefix_append _ _).trans hbelow)⟩
    · exact .inr ⟨file, hfile, hpath ▸ hjoin⟩

theorem Step.present {p q : Place} (h : Step env files p q) (hp : Present files p.dir) : Present files q.dir := by
  cases h with
  | stay _ => exact hp
  | up => exact .inl (isDirectory_parent hp)
  | enter _ _ hpresent _ => exact hpresent
  | follow _ _ _ => exact hp

theorem present_run {p q : Place} (hp : Present files p.dir) (hrun : Relation.ReflTransGen (Step env files) p q) :
    Present files q.dir := by
  induction hrun with
  | refl => exact hp
  | tail _ hstep ih => exact hstep.present ih

/-- Where a walk along a link starts: in the directory that holds it. -/
def RecipeFile.start (env : RecipeEnv) (file : RecipeFile) : Place := ⟨(splitPath file.path).dropLast, splitPath (file.target env)⟩

theorem present_start {file : RecipeFile} (h : file ∈ files) : Present files (file.start env).dir := by
  have hparts : splitPath file.path ≠ [] := List.splitOn_ne_nil _ _
  -- the link itself is there, so the path without its name is a directory
  have hpath : Present files ((splitPath file.path).dropLast ++ [(splitPath file.path).getLast hparts]) := by
    rw [List.dropLast_append_getLast hparts]
    exact .inr ⟨file, h, (List.intercalate_splitOn slash).symm⟩
  exact .inl (isDirectory_parent hpath)

theorem verifyFiles_ok {value : RecipeCapture} {result : Links × List (JsString × Bytes)}
    (h : verifyFiles env value = .ok result) : ∃ expected, checkFiles env expected value.files = .ok result := by
  rw [verifyFiles] at h
  obtain ⟨commit, -, h⟩ := bind_ok.mp h
  split at h
  · cases h
  · obtain ⟨first, -, h⟩ := bind_ok.mp h
    split at h
    · cases h
    · obtain ⟨trees, -, h⟩ := bind_ok.mp h
      obtain ⟨⟨root, w⟩, -, h⟩ := bind_ok.mp h
      obtain ⟨w, -, h⟩ := bind_ok.mp h
      split at h
      · cases h
      · exact ⟨_, h⟩

theorem verifyRecipeCapture_ok {value : RecipeCapture} {retained : List (JsString × Bytes)}
    (h : verifyRecipeCapture env value = .ok retained) :
    ∃ expected links, checkFiles env expected value.files = .ok (links, retained) ∧ checkLinks links = .ok () := by
  obtain ⟨⟨links, others⟩, hfiles, h⟩ := bind_ok.mp h
  obtain ⟨_, hlinks, h⟩ := bind_ok.mp h
  cases h
  obtain ⟨expected, hfiles⟩ := verifyFiles_ok hfiles
  exact ⟨expected, links, hfiles, hlinks⟩

/-- A link of an accepted capture, whatever further links and parents a walk along it goes through: the walk ends, it never
leaves the recipe, and where it arrives is a file or a directory of the recipe. -/
theorem verifyRecipeCapture_links (env : RecipeEnv) (value : RecipeCapture) (retained : List (JsString × Bytes))
    (h : verifyRecipeCapture env value = .ok retained) (hmark : Unmarked env value.files) :
    ∀ file ∈ value.files, file.mode = .symlink →
      isAbsolute (file.target env) = false ∧ Acc (fun q p => Step env value.files p q) (file.start env) ∧
        ∀ p, Relation.ReflTransGen (Step env value.files) (file.start env) p →
          ¬Leaves env value.files p ∧ Present value.files p.dir := by
  intro file hfile hmode
  obtain ⟨expected, links, hfiles, hlinks⟩ := verifyRecipeCapture_ok h
  obtain rfl := checkFiles_links hfiles hmark
  have hchecked := forM_ok.mp hlinks _ (mem_fileLinks.mpr ⟨file, hfile, hmode, rfl, rfl⟩)
  rw [checkLink] at hchecked
  split at hchecked
  · cases hchecked
  · next hsafe =>
    have hrun := followLink_safe (linksOf_fileLinks value.paths) hchecked
    refine ⟨?_, hrun.ends, fun p hp => ⟨hrun.run hp, present_run (present_start hfile) hp⟩⟩
    exact Bool.eq_false_iff.mpr fun habsolute => hsafe (.inr (.inl habsolute))

end

/-- The tree of a recipe with a link to a file that it does not have. -/
def danglingTree : Bytes :=
  encode "100644 PKGBUILD\x00".toList ++
    [116, 61, 196, 67, 244, 149, 191, 236, 60, 140, 97, 225, 117, 85, 209, 166, 238, 224, 170, 80] ++
    encode "120000 a\x00".toList ++
    [110, 171, 121, 166, 206, 37, 177, 152, 81, 245, 145, 227, 233, 116, 225, 146, 198, 133, 140, 246]

def danglingCommit : Bytes :=
  encode ("tree 98c2a4c2ff20479d7d0243245c95aaec4fc68985\n" ++
    "author a <a@example.org> 0 +0000\ncommitter a <a@example.org> 0 +0000\n\nm\n").toList

def pkgbuild : Bytes := encode "pkgname=a\n".toList

/-- The four objects by their digests. -/
def danglingObjects : List (Bytes × String) := [
  (danglingCommit, "80269bddf1117774357cfbb1066d174911f6037483819df2adafb1234ad9a83e"),
  (danglingTree, "d225d58d7d13617ac66dc55972afdd4344f017449c4e86b20f37dd2c45ca7319"),
  (pkgbuild, "28f9ad67d0d123d5037ea9b756db3e5d5c9811e31eb81c642daaefbaf43a1788"),
  (encode "missing".toList, "ffa63583dfa6706b87d284b86b0d693a161e4840aad2c5cf6b5d27c3b9621f7d")]

def danglingEnv : RecipeEnv where
  read ref := (danglingObjects.find? (·.2 = ref.sha256)).map (·.1)
  sha1 bytes :=
    if bytes = encode "commit 118\x00".toList ++ danglingCommit then "b712a6525eda48e98f34e34e6cdfb5a0767026d7"
    else if bytes = encode "tree 65\x00".toList ++ danglingTree then "98c2a4c2ff20479d7d0243245c95aaec4fc68985"
    else if bytes = encode "blob 10\x00".toList ++ pkgbuild then "743dc443f495bfec3c8c61e17555d1a6eee0aa50"
    else if bytes = encode "blob 7\x00missing".toList then "6eab79a6ce25b19851f591e3e974e192c6858cf6"
    else ""
  sha256 bytes := ((danglingObjects.find? (·.1 = bytes)).map (·.2)).getD ""

def danglingLink : RecipeFile := ⟨units "a", .symlink, ⟨"ffa63583dfa6706b87d284b86b0d693a161e4840aad2c5cf6b5d27c3b9621f7d", 7⟩⟩

def danglingCapture : RecipeCapture where
  commit := "b712a6525eda48e98f34e34e6cdfb5a0767026d7"
  directory := []
  gitCommit := ⟨"80269bddf1117774357cfbb1066d174911f6037483819df2adafb1234ad9a83e", 118⟩
  gitTrees := [⟨"d225d58d7d13617ac66dc55972afdd4344f017449c4e86b20f37dd2c45ca7319", 65⟩]
  files := [
    ⟨units "PKGBUILD", .regular, ⟨"28f9ad67d0d123d5037ea9b756db3e5d5c9811e31eb81c642daaefbaf43a1788", 10⟩⟩,
    danglingLink]
  paths := by decide

/-- A link to a file that the recipe does not have is accepted. -/
theorem danglingCapture_accepted : verifyRecipeCapture danglingEnv danglingCapture = .ok [(units "PKGBUILD", pkgbuild)] := by
  have hfiles : verifyFiles danglingEnv danglingCapture =
      .ok ([(units "a", units "missing")], [(units "PKGBUILD", pkgbuild)]) := by decide +kernel
  have hwalk : followLink [(units "a", units "missing")] [] [units "missing"] [units "a"] = .ok () := by
    have hget : Links.get [(units "a", units "missing")] (joinPath ([] ++ [units "missing"])) = none := by decide
    rw [followLink, if_neg (by decide), if_neg (by decide), if_neg (by decide)]
    dsimp only
    rw [hget]
    dsimp only
    rw [followLink]
  have hlinks : checkLinks [(units "a", units "missing")] = .ok () := by
    refine forM_ok.mpr fun link hlink => ?_
    rw [List.mem_singleton.mp hlink, checkLink, if_neg (by decide)]
    exact hwalk
  exact bind_ok.mpr ⟨_, hfiles, bind_ok.mpr ⟨(), hlinks, rfl⟩⟩

theorem danglingCapture_unmarked : Unmarked danglingEnv danglingCapture.files := by
  intro file hfile hmode
  obtain rfl | hfile := List.mem_cons.mp hfile
  · cases hmode
  · rw [List.mem_singleton.mp hfile, HasMark]
    decide +kernel

theorem verifyRecipeCapture_links_dangling :
    isAbsolute (danglingLink.target danglingEnv) = false ∧
      Acc (fun q p => Step danglingEnv danglingCapture.files p q) (danglingLink.start danglingEnv) ∧
      ∀ p, Relation.ReflTransGen (Step danglingEnv danglingCapture.files) (danglingLink.start danglingEnv) p →
        ¬Leaves danglingEnv danglingCapture.files p ∧ Present danglingCapture.files p.dir :=
  verifyRecipeCapture_links danglingEnv danglingCapture _ danglingCapture_accepted danglingCapture_unmarked danglingLink
    (List.mem_cons_of_mem _ List.mem_cons_self) rfl

theorem missing_absent : ¬Present danglingCapture.files ([] ++ [units "missing"]) := by
  rintro ((h | ⟨file, hfile, h⟩) | ⟨file, hfile, h⟩)
  · cases h
  · simp only [danglingCapture, List.mem_cons, List.not_mem_nil, or_false] at hfile
    obtain rfl | rfl := hfile <;> exact absurd h (by decide)
  · simp only [danglingCapture, List.mem_cons, List.not_mem_nil, or_false] at hfile
    obtain rfl | rfl := hfile <;> exact absurd h (by decide)

/-- A link of an accepted capture need not lead anywhere. -/
theorem link_to_nothing :
    ¬∀ (env : RecipeEnv) (value : RecipeCapture) (retained : List (JsString × Bytes)),
      verifyRecipeCapture env value = .ok retained → ∀ file ∈ value.files, file.mode = .symlink →
        ∃ p, Relation.ReflTransGen (Step env value.files) (file.start env) p ∧ p.rest = [] ∧ Present value.files p.dir := by
  intro h
  obtain ⟨p, hrun, hrest, -⟩ := h danglingEnv danglingCapture _ danglingCapture_accepted danglingLink
    (List.mem_cons_of_mem _ List.mem_cons_self) rfl
  have hdir : (splitPath danglingLink.path).dropLast = [] := by decide +kernel
  have htarget : splitPath (danglingLink.target danglingEnv) = [units "missing"] := by decide +kernel
  rw [RecipeFile.start, hdir, htarget] at hrun
  rcases hrun.cases_head with rfl | ⟨q, hstep, -⟩
  · cases hrest
  · obtain ⟨hpart, -⟩ | ⟨_, _, hpart, -⟩ | ⟨-, -, hpresent, -⟩ | ⟨file, -, hlink, -⟩ := step_cases hstep
    · exact absurd hpart (by decide)
    · exact absurd hpart (by decide)
    · exact missing_absent hpresent
    · exact missing_absent (.inr ⟨file, hlink.mem, hlink.path⟩)

end Omapkg.Server.Recipe
