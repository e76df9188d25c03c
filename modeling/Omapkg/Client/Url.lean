import Omapkg.Client.GoJson
/-!
# URLs of the client

`net/url` as far as `src/omarchy/manifest-client/client.go` uses it, and the
client's tests of URLs. A Go string is the list of its bytes, each a
character. How an IP literal in brackets is read is the parameter `literal`.
-/

namespace Omapkg.Client

open Utf

/-- The bytes of a string. -/
def goBytes (s : String) : List Char := (encode s.toList).map fun b => Char.ofNat b.toNat

/-! ## Parsing -/

structure GoUrl where
  scheme : List Char
  opaquePart : List Char
  user : Option (List Char)
  host : List Char
  path : List Char
  rawPath : List Char
  rawQuery : List Char
  fragment : List Char

inductive EscapeMode where
  | path | host | userPassword | fragment
  deriving DecidableEq

def isLetter (c : Char) : Bool := ('a' ≤ c && c ≤ 'z') || ('A' ≤ c && c ≤ 'Z')

def isDigitOrLetter (c : Char) : Bool := isLetter c || ('0' ≤ c && c ≤ '9')

def hexValue (c : Char) : Option Nat :=
  if '0' ≤ c ∧ c ≤ '9' then some (c.toNat - 48)
  else if 'a' ≤ c ∧ c ≤ 'f' then some (c.toNat - 87)
  else if 'A' ≤ c ∧ c ≤ 'F' then some (c.toNat - 55)
  else none

/-- `shouldEscape`. -/
def shouldEscape (mode : EscapeMode) (c : Char) : Bool :=
  if isDigitOrLetter c then false
  else if mode = .host && "!$&'()*+,;=:[]<>\"".toList.contains c then false
  else if "-_.~".toList.contains c then false
  else if "$&+,/:;=?@".toList.contains c then
    match mode with
    | .path => c = '?'
    | .userPassword => c = '@' || c = '/' || c = '?' || c = ':'
    | .fragment => false
    | .host => true
  else if mode = .fragment && "!()*".toList.contains c then false
  else true

def unescape (mode : EscapeMode) : List Char → Option (List Char)
  | [] => some []
  | '%' :: a :: b :: cs =>
    match hexValue a, hexValue b with
    | some hi, some lo =>
      if mode = .host ∧ hi < 8 ∧ ¬(a = '2' ∧ b = '5') then none
      else (unescape mode cs).map (Char.ofNat (hi * 16 + lo) :: ·)
    | _, _ => none
  | c :: cs =>
    if c = '%' then none
    else if mode = .host ∧ c.toNat < 0x80 ∧ shouldEscape mode c = true then none
    else (unescape mode cs).map (c :: ·)

def upperHex (n : Nat) : Char := if n < 10 then Char.ofNat (48 + n) else Char.ofNat (55 + n)

def escape (mode : EscapeMode) (cs : List Char) : List Char :=
  cs.flatMap fun c =>
    if shouldEscape mode c then ['%', upperHex (c.toNat / 16), upperHex (c.toNat % 16)] else [c]

/-- The text before the first `c`, and the text after it if there is one. -/
def cut (c : Char) (cs : List Char) : List Char × Option (List Char) :=
  (cs.takeWhile (· ≠ c), match cs.dropWhile (· ≠ c) with | [] => none | _ :: r => some r)

/-- The scheme and the rest of a URL, `seen` being the letters before it. -/
def getSchemeFrom (seen : List Char) : List Char → Option (List Char × List Char)
  | [] => some ([], seen.reverse)
  | c :: cs =>
    if isLetter c then getSchemeFrom (c :: seen) cs
    else if ('0' ≤ c ∧ c ≤ '9') ∨ c = '+' ∨ c = '-' ∨ c = '.' then
      if seen = [] then some ([], c :: cs) else getSchemeFrom (c :: seen) cs
    else if c = ':' then
      if seen = [] then none else some (seen.reverse, cs)
    else some ([], seen.reverse ++ c :: cs)

/-- `validOptionalPort`. -/
def validOptionalPort : List Char → Bool
  | [] => true
  | c :: cs => c = ':' && cs.all fun d => '0' ≤ d && d ≤ '9'

def parseHost (literal : List Char → Option (List Char)) (host : List Char) : Option (List Char) :=
  if host.contains '[' then literal host
  else if validOptionalPort (host.dropWhile (· ≠ ':')) = false then none
  else unescape .host host

/-- `validUserinfo`. -/
def validUserinfo (cs : List Char) : Bool :=
  cs.all fun c => isDigitOrLetter c || "-._:~!$&'()*+,;=%@".toList.contains c

/-- The user and the host of an authority, parted at the last `@`. -/
def parseAuthority (literal : List Char → Option (List Char)) (authority : List Char) :
    Option (Option (List Char) × List Char) :=
  match cut '@' authority.reverse with
  | (_, none) => (parseHost literal authority).map fun host => (none, host)
  | (host, some user) => do
    let host ← parseHost literal host.reverse
    if validUserinfo user.reverse = false then none
    else
      let user ← unescape .userPassword user.reverse
      some (some user, host)

def isControl (c : Char) : Bool := c < ' ' || c = '\x7f'

/-- The path of a URL, and its escaped form where that is not the default. -/
def setPath (url : GoUrl) (p : List Char) : Option GoUrl := do
  let path ← unescape .path p
  some { url with path := path, rawPath := if escape .path path = p then [] else p }

def parseRest (literal : List Char → Option (List Char)) (scheme rest fragment : List Char) : Option GoUrl :=
  let (rest, query) := cut '?' rest
  let url : GoUrl := ⟨scheme, [], none, [], [], [], query.getD [], fragment⟩
  match rest with
  | '/' :: '/' :: authority => do
    if scheme = [] ∧ authority.head? = some '/' then setPath url rest
    else
      let (user, host) ← parseAuthority literal (authority.takeWhile (· ≠ '/'))
      setPath { url with user := user, host := host } (authority.dropWhile (· ≠ '/'))
  | '/' :: _ => setPath url rest
  | _ =>
    if scheme ≠ [] then some { url with opaquePart := rest }
    else if (cut '/' rest).1.contains ':' then none
    else setPath url rest

/-- `url.Parse`. -/
def urlParse (literal : List Char → Option (List Char)) (raw : List Char) : Option GoUrl := do
  let (u, fragment) := cut '#' raw
  if u.any isControl = true then none
  else if u = ['*'] then some ⟨[], [], none, [], ['*'], [], [], fragment.getD []⟩
  else
    let (scheme, rest) ← getSchemeFrom [] u
    let fragment ← unescape .fragment (fragment.getD [])
    parseRest literal (scheme.map Char.toLower) rest fragment

/-- `validEncoded` of a path. -/
def validEncodedPath (cs : List Char) : Bool :=
  cs.all fun c => "!$&'()*+,;=:@[]%".toList.contains c || !shouldEscape .path c

/-- `URL.EscapedPath`. -/
def GoUrl.escapedPath (url : GoUrl) : List Char :=
  if url.rawPath ≠ [] ∧ validEncodedPath url.rawPath = true ∧ unescape .path url.rawPath = some url.path then
    url.rawPath
  else if url.path = ['*'] then "%2A".toList
  else escape .path url.path

/-! ## Components -/

/-- `strings.Split(path, "/")`. -/
def splitSlash : List Char → List (List Char)
  | [] => [[]]
  | c :: cs =>
    if c = '/' then [] :: splitSlash cs
    else
      match splitSlash cs with
      | p :: ps => (c :: p) :: ps
      | [] => [[c]]

/-- `strings.Contains`. -/
def containsText (s sub : List Char) : Bool := s.tails.any sub.isPrefixOf

/-- The names of lanes in a path. -/
def isLaneName (component : List Char) : Bool :=
  ["transactions".toList, "releases".toList, "opr".toList].contains component

def isReleaseChannel (component : List Char) : Bool :=
  ["stable".toList, "edge".toList, "rc".toList].contains component

def isLaneChannel (component : List Char) : Bool := isReleaseChannel component || component = "quarantine".toList

/-- The names only a moving path has. -/
def isMovingName (component : List Char) : Bool :=
  ["latest".toList, "current".toList, "channels".toList, "channel".toList, "dev".toList,
    "quarantine".toList].contains component

/-- Whether a lane and a channel stand somewhere with no release id after
them. -/
def hasPointer : List (List Char) → Bool
  | [] => false
  | component :: rest =>
    (isLaneName component &&
      match rest with
      | channel :: leaf =>
        isLaneChannel channel &&
          match leaf with
          | id :: _ :: _ => id = "manifest.json".toList || ".json".toList.isSuffixOf id
          | _ => true
      | [] => false) || hasPointer rest

/-- Whether a channel stands somewhere without a lane before it. -/
def hasStrayChannel : Option (List Char) → List (List Char) → Bool
  | _, [] => false
  | previous, component :: rest =>
    (isReleaseChannel component && (previous.map isLaneName).getD false = false) ||
      hasStrayChannel (some component) rest

def mutablePath (components : List (List Char)) : Bool :=
  hasPointer components || components.any isMovingName || hasStrayChannel none components

section
variable (literal : List Char → Option (List Char))

def mutableURL (raw : String) : Bool :=
  match urlParse literal (goBytes raw) with
  | none => true
  | some parsed => mutablePath (splitSlash parsed.path)

def mutableComponentError (raw : String) : GoError :=
  .errorf "immutable URL contains mutable path component: %q" [raw]

/-- The checks of a URL's path components, in order. -/
def checkComponents (raw : String) (rejectMutable : Bool) : List (List Char) → Except GoError Unit
  | [] => .ok ()
  | component :: rest =>
    if component = ['.'] ∨ component = ['.', '.'] ∨ component = "$arch".toList then
      .error (mutableComponentError raw)
    else if rejectMutable = true ∧ isMovingName component = true then .error (mutableComponentError raw)
    else checkComponents raw rejectMutable rest

def validateURLMode (raw : String) (allowHTTP rejectMutable : Bool) : Except GoError Unit :=
  if raw.toList.any (fun c => c = '\x00' || c = '\r' || c = '\n' || c = '\t' || c = ' ') = true then
    .error (.errorf "unsafe immutable URL %q" [raw])
  else
    match urlParse literal (goBytes raw) with
    | none => .error (.errorf "unsafe immutable URL %q" [raw])
    | some parsed =>
      if parsed.host = [] ∨ parsed.user ≠ none ∨ parsed.rawQuery ≠ [] ∨ parsed.fragment ≠ [] then
        .error (.errorf "unsafe immutable URL %q" [raw])
      else if parsed.scheme ≠ "https".toList ∧ ¬(allowHTTP = true ∧ parsed.scheme = "http".toList) then
        .error (.errorf "URL must use HTTPS: %q" [raw])
      else
        let escapedPath := parsed.escapedPath.map Char.toLower
        if parsed.path = [] ∨ containsText parsed.path "//".toList = true ∨ parsed.path.contains '\\' = true ∨
            containsText escapedPath "%2e".toList = true ∨ containsText escapedPath "%2f".toList = true ∨
            containsText escapedPath "%5c".toList = true then
          .error (.errorf "immutable URL has unsafe path: %q" [raw])
        else checkComponents raw rejectMutable (splitSlash parsed.path)

def validateURL (raw : String) (allowHTTP : Bool) : Except GoError Unit :=
  validateURLMode literal raw allowHTTP true

def validateDiscoveryURL (raw : String) (allowHTTP : Bool) : Except GoError Unit :=
  validateURLMode literal raw allowHTTP false

end

end Omapkg.Client
