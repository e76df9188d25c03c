import Omapkg.Client.State
/-!
# The pacman configuration

`rewriteConfig` of `src/omarchy/manifest-client/config.go`: the sections of
the signed repositories get the signed server, in the signed order, and any
other source of packages is refused. A text is a list of runes, so that bytes
that are no UTF-8 stay as they are.
-/

namespace Omapkg.Client

open Utf

/-! ## Texts -/

/-- The bytes of a string. -/
def utf8 (s : String) : Bytes := encode s.toList

/-- `strings.SplitAfter` at line breaks. -/
def splitLines : List Rune → List (List Rune)
  | [] => [[]]
  | r :: rs =>
    if r.char = '\n' then [r] :: splitLines rs
    else
      match splitLines rs with
      | line :: lines => (r :: line) :: lines
      | [] => [[r]]

/-- `\s` of a pattern. -/
def isBlank (r : Rune) : Bool := ['\t', '\n', '\x0c', '\r', ' '].contains r.char

/-- What `strings.TrimSpace` takes off. -/
def isTrimmed (r : Rune) : Bool := r.char = '\n' || isGoSpace r.char

def trimSpace (line : List Rune) : List Rune := ((line.dropWhile isTrimmed).reverse.dropWhile isTrimmed).reverse

/-- `unicode.ToLower`, of what lowers to ASCII. -/
def lowerChar (c : Char) : Char :=
  if 'A' ≤ c ∧ c ≤ 'Z' then Char.ofNat (c.toNat + 32)
  else if c = '\u0130' then 'i'
  else if c = '\u212A' then 'k'
  else c

def chars (line : List Rune) : List Char := line.map Rune.char

def lowered (line : List Rune) : List Char := line.map fun r => lowerChar r.char

/-- A directive by the start of its name. -/
def isDirective (name : String) (line : List Rune) : Bool :=
  let trimmed := trimSpace line
  name.toList.isPrefixOf (lowered trimmed) && (chars trimmed).contains '='

/-- `strings.Contains`. -/
def containsWord (word : String) (text : List Char) : Bool := text.tails.any word.toList.isPrefixOf

/-! ## Sections -/

structure ConfigSection where
  name : Bytes
  header : List Rune
  lines : List (List Rune)

/-- `sectionPattern`: the name in brackets, blanks around it aside. -/
def sectionName (line : List Rune) : Option Bytes :=
  match line.dropWhile isBlank with
  | [] => none
  | r :: rest =>
    let name := rest.takeWhile fun r => r.char ≠ ']'
    match rest.dropWhile fun r => r.char ≠ ']' with
    | [] => none
    | _ :: tail => if r.char = '[' ∧ name ≠ [] ∧ tail.all isBlank = true then some (runeBytes name) else none

def trimNewline (line : List Rune) : List Rune :=
  match line.getLast? with
  | some r => if r.char = '\n' then line.dropLast else line
  | none => line

/-- The sections and what stands before them, the lines being taken from the
last to the first. -/
def collectSections : List (List Rune) → List ConfigSection × List (List Rune)
  | [] => ([], [])
  | line :: rest =>
    let (sections, leading) := collectSections rest
    match sectionName (trimNewline line) with
    | some name => (⟨name, line, leading⟩ :: sections, [])
    | none => (sections, line :: leading)

/-- `parseSections`: the sections, and the bytes before the first. -/
def parseSections (input : Bytes) : List ConfigSection × List Rune :=
  let (sections, leading) := collectSections (splitLines (runes input))
  (sections, leading.flatten)

/-! ## Checks -/

/-- Whether a line names a source of packages. -/
def activeRepoDirective (lines : List (List Rune)) : Bool :=
  lines.any fun line =>
    let start := (chars (trimSpace line)).head?
    start ≠ some '#' && start ≠ some ';' && (isDirective "server" line || isDirective "include" line)

/-- A signature level that does not ask for signatures. -/
def laxSigLevel (line : List Rune) : Bool :=
  isDirective "siglevel" line && !containsWord "required" (lowered (trimSpace line))

def findOwned (repositories : List Repository) (name : Bytes) : Option Repository :=
  repositories.find? fun repository => utf8 repository.name = name

def sectionText (name : Bytes) : String := String.ofList (decode name)

/-- Checks the sections in order; the names of those owned are the result,
`seen` being those before. -/
def checkSections (repositories : List Repository) (seen : List Bytes) : List ConfigSection →
    Except GoError (List Bytes)
  | [] => .ok []
  | configSection :: rest =>
    match findOwned repositories configSection.name with
    | none =>
      if activeRepoDirective configSection.lines then
        .error (.errorf ("unmanaged enabled repository [%s] remains; remove or migrate it before using signed " ++
          "transaction (AUR/ALARM/live upstream fallback is forbidden)") [sectionText configSection.name])
      else checkSections repositories seen rest
    | some _ =>
      if configSection.name ∈ seen then
        .error (.errorf "pacman config contains duplicate owned section [%s]" [sectionText configSection.name])
      else if configSection.lines.any laxSigLevel then
        .error (.errorf "owned repository [%s] does not require package signatures" [sectionText configSection.name])
      else
        match checkSections repositories (configSection.name :: seen) rest with
        | .ok present => .ok (configSection.name :: present)
        | .error e => .error e

/-- `isSubsequence`, from the first name not yet met. -/
def matchNames : List Bytes → List Bytes → Bool
  | _, [] => true
  | [], _ :: _ => false
  | value :: expected, name :: actual =>
    if value = name then matchNames expected actual else matchNames expected (name :: actual)

def isSubsequence (expected actual : List Bytes) : Bool :=
  actual.length ≤ expected.length && matchNames expected actual

/-- The first repository whose name stands before it already. -/
def duplicateName (seen : List String) : List Repository → Option String
  | [] => none
  | repository :: rest =>
    if repository.name ∈ seen then some repository.name else duplicateName (repository.name :: seen) rest

/-! ## Rendering -/

def serverLine (repository : Repository) : Bytes := utf8 ("Server = " ++ repository.packageBaseUrl ++ "\n")

def sigLevelLine : Bytes := utf8 "SigLevel = Required TrustedOnly\n"

/-- The lines of an owned section: its first server is the signed one, and no
other server and no include stays. -/
def renderLines (repository : Repository) (inserted : Bool) : List (List Rune) → Bytes × Bool
  | [] => ([], inserted)
  | line :: rest =>
    if isDirective "server" line then
      let (output, done) := renderLines repository true rest
      ((if inserted then [] else serverLine repository) ++ output, done)
    else if isDirective "include" line then renderLines repository inserted rest
    else
      let (output, done) := renderLines repository inserted rest
      (runeBytes line ++ output, done)

def endsWithNewline (bytes : Bytes) : Bool := bytes.getLast? = some 0x0A

def renderOwnedSection (configSection : ConfigSection) (repository : Repository) : Bytes :=
  let header := runeBytes configSection.header
  let (body, inserted) := renderLines repository false configSection.lines
  header ++ (if endsWithNewline header then [] else [0x0A]) ++ body ++
    (if configSection.lines.any (isDirective "siglevel") then [] else sigLevelLine) ++
    (if inserted then [] else serverLine repository)

def renderMissingSection (repository : Repository) : Bytes :=
  utf8 ("[" ++ repository.name ++ "]\n") ++ sigLevelLine ++ serverLine repository

def renderSection (repositories : List Repository) (configSection : ConfigSection) : Bytes :=
  match findOwned repositories configSection.name with
  | some repository => renderOwnedSection configSection repository
  | none => runeBytes configSection.header ++ runeBytes configSection.lines.flatten

/-- The section of a repository the configuration lacks, apart from what is
before it. -/
def appendMissing (output : Bytes) (repository : Repository) : Bytes :=
  let output := if output ≠ [] ∧ endsWithNewline output = false then output ++ [0x0A] else output
  (if output ≠ [] then output ++ [0x0A] else output) ++ renderMissingSection repository

def rewriteConfig (input : Bytes) (repositories : List Repository) : Except GoError Bytes :=
  if repositories = [] then .error (.new "cannot render pacman config without repositories")
  else
    let (sections, leading) := parseSections input
    if activeRepoDirective (splitLines leading) then
      .error (.new ("unmanaged pacman Include directive remains before repository sections; " ++
        "migrate it before using signed transaction"))
    else
      match duplicateName [] repositories with
      | some name => .error (.errorf "duplicate repository %q" [name])
      | none =>
        match checkSections repositories [] sections with
        | .error e => .error e
        | .ok present =>
          if isSubsequence (repositories.map fun repository => utf8 repository.name) present = false then
            .error (.new "local owned repository order differs from signed transaction")
          else
            let output := runeBytes leading ++ sections.flatMap (renderSection repositories)
            .ok ((repositories.filter fun repository => utf8 repository.name ∉ present).foldl appendMissing output)

end Omapkg.Client
