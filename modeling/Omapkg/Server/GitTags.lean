import Mathlib.Order.Compare
import Mathlib.Order.PiLex
import Mathlib.Data.Prod.Lex
import Omapkg.Lib.Decimal
import Omapkg.Server.Validate
/-!
# Release tags

`parseGitTags` and `compareTagVersions` of `src/services/pipeline/release.ts`. The numbers of
a tag are compared as numbers, and then a pre-release comes before its release; which
pre-release it is does not count.
-/

namespace Omapkg.Server.Tags

open Decimal

abbrev Text := List Char

/-! ## Versions of tags -/

def isSeparator (c : Char) : Bool := c = '.' || c = '-'

/-- What `/(?:[.-]\d+)*/` matches after a digit, with the digits that it goes on with. -/
def coreTail : Text → Text
  | [] => []
  | [c] => if c.isDigit then [c] else []
  | c :: d :: rest =>
    if c.isDigit then c :: coreTail (d :: rest)
    else if isSeparator c = true ∧ d.isDigit = true then c :: coreTail (d :: rest)
    else []

/-- `tag.match(/\d+(?:[.-]\d+)*/)?.[0] ?? ''`. -/
def versionCore (tag : Text) : Text := coreTail (tag.dropWhile fun c => !c.isDigit)

/-- `part.replace(/^0+(?=\d)/, '') || '0'` of digits. -/
def stripZeros (part : Text) : Text :=
  let stripped := part.dropWhile (· = '0')
  if stripped = [] then ['0'] else stripped

def tagVersionParts (tag : Text) : List Text :=
  (((versionCore tag).splitOnP isSeparator).filter (· ≠ [])).map stripZeros

def comparePart (left right : Text) : Ordering :=
  if left.length ≠ right.length then if right.length < left.length then .gt else .lt
  else if left ≠ right then if right < left then .gt else .lt
  else .eq

/-- The rounds of the loop; a part that is missing is `0`. -/
def compareParts : Nat → List Text → List Text → Ordering
  | 0, _, _ => .eq
  | rounds + 1, a, b => (comparePart (a.headD ['0']) (b.headD ['0'])).then (compareParts rounds a.tail b.tail)

def prereleaseWords : List Text := ["alpha", "beta", "rc", "pre", "dev", "snapshot"].map String.toList

/-- The word of a pre-release that a text starts with, in any case. -/
def startsPrerelease (rest : Text) : Option Text :=
  prereleaseWords.find? fun word => word.isPrefixOf (rest.map Char.toLower)

def isPrerelease (tag : Text) : Bool := tag.tails.any fun rest => (startsPrerelease rest).isSome

def compareTagVersions (left right : Text) : Ordering :=
  let a := tagVersionParts left
  let b := tagVersionParts right
  (compareParts (max a.length b.length) a b).then
    (if isPrerelease left ≠ isPrerelease right then if isPrerelease left then .lt else .gt else .eq)

/-! ## Lines of `git ls-remote` -/

structure TagLine where
  commit : Text
  tag : Text
  peeled : Bool

def isSpace (c : Char) : Bool := c.toNat < 0x10000 && isJsSpace c.toNat.toUInt16

def trimLine (line : Text) : Text := ((line.dropWhile isSpace).reverse.dropWhile isSpace).reverse

def isHex (c : Char) : Bool := c.isDigit || ('a' ≤ c.toLower && c.toLower ≤ 'f')

def isTagChar (c : Char) : Bool := c.isAlphanum || c = '.' || c = '_' || c = '+' || c = '-'

def refsTags : Text := "refs/tags/".toList

/-- `/^([0-9a-f]{40}(?:[0-9a-f]{24})?)\s+refs\/tags\/([A-Za-z0-9._+-]{1,128})(\^\{\})?$/i`: no class
holds a character that the next may start with, so each takes all that it can. -/
def matchTagLine (line : Text) : Option TagLine :=
  let commit := line.takeWhile isHex
  let rest := line.dropWhile isHex
  let ref := rest.dropWhile isSpace
  let tag := (ref.drop refsTags.length).takeWhile isTagChar
  let tail := (ref.drop refsTags.length).dropWhile isTagChar
  if (commit.length = 40 ∨ commit.length = 64) ∧ rest.takeWhile isSpace ≠ [] ∧
      refsTags.isPrefixOf (ref.map Char.toLower) = true ∧ 1 ≤ tag.length ∧ tag.length ≤ 128 ∧
      (tail = [] ∨ tail = "^{}".toList) then
    some ⟨commit.map Char.toLower, tag, tail ≠ []⟩
  else none

/-- A line that names a tag with a digit. -/
def readTagLine (line : Text) : Option TagLine :=
  (matchTagLine (trimLine line)).filter fun found => found.tag.any Char.isDigit

/-! ## The newest tag -/

structure TagEntry where
  tag : Text
  commit : Option Text
  peeled : Option Text

def TagEntry.put (entry : TagEntry) (line : TagLine) : TagEntry :=
  if line.peeled then { entry with peeled := some line.commit } else { entry with commit := some line.commit }

/-- `tags` and `order` as one list, a tag where it was first listed. -/
def recordTag (entries : List TagEntry) (line : TagLine) : List TagEntry :=
  if line.tag ∈ entries.map (·.tag) then
    entries.map fun entry => if entry.tag = line.tag then entry.put line else entry
  else entries ++ [TagEntry.put ⟨line.tag, none, none⟩ line]

structure GitTag where
  version : Text
  commit : Text
  deriving DecidableEq

def newerTag (latest : Option GitTag) (entry : TagEntry) : Option GitTag :=
  match entry.peeled.or entry.commit with
  | none => latest
  | some commit =>
    match latest with
    | none => some ⟨entry.tag, commit⟩
    | some found => if compareTagVersions entry.tag found.version = .gt then some ⟨entry.tag, commit⟩ else latest

def tagLines (stdout : Text) : List TagLine := (stdout.splitOn '\n').filterMap readTagLine

def parseGitTags (stdout : Text) : Option GitTag := ((tagLines stdout).foldl recordTag []).foldl newerTag none

end Omapkg.Server.Tags
