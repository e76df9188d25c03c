import Omapkg.Server.DependencyGraph
/-!
# Reported blockers

`parseDependencyBlockers` of `src/src/lib/server/dependency-blockers.ts`, on a
decoded value. A strict object has all its keys; one that may be null is there.
-/

namespace Omapkg.Server.Dependency

open Json Utf
open Arch (textOf parseArchRelation)

inductive Phase where
  | factory | build | runtime
  deriving DecidableEq, Repr

def readPhase (s : String) : Option Phase :=
  if s = "factory" then some .factory else if s = "build" then some .build else if s = "runtime" then some .runtime else none

def Phase.text : Phase → String
  | .factory => "factory"
  | .build => "build"
  | .runtime => "runtime"

def readResolution (s : String) : Option Resolution :=
  if s = "dependency" then some .dependency else if s = "recipe" then some .recipe
  else if s = "exception" then some .exception else none

def Resolution.text : Resolution → String
  | .dependency => "dependency"
  | .recipe => "recipe"
  | .exception => "exception"

structure DependencyBlockerInput where
  relation : Option String
  phase : Phase
  resolution : Resolution
  detail : JsString
  findingSha256 : Option String
  deriving DecidableEq

/-- `v.nullable(v.string())`. -/
def nullableText : Option (Json String) → Option (Option String)
  | some .null => some none
  | some (.str s) => some (some s)
  | _ => none

def readDetail (s : String) : Option JsString :=
  let detail := trim (units s)
  if 1 ≤ detail.length ∧ detail.length ≤ 4096 ∧ detail.contains 0x0 = false ∧ detail.contains 0x0D = false then some detail
  else none

/-- An optional digest. -/
def readDigest : Option (Json String) → Option (Option String)
  | none => some none
  | some (.str s) => if isSha256 (units s) then some (some s) else none
  | _ => none

def blockerSchema (value : Json String) : Option DependencyBlockerInput :=
  if hasKeys ["relation", "phase", "resolution", "detail"] ["findingSha256"] value = false then none
  else do
    let relation ← nullableText (property "relation" value)
    let phase ← (textOf (property "phase" value)).bind readPhase
    let resolution ← (textOf (property "resolution" value)).bind readResolution
    let detail ← (textOf (property "detail" value)).bind readDetail
    let findingSha256 ← readDigest (property "findingSha256" value)
    some { relation, phase, resolution, detail, findingSha256 }

/-- What a relation of a blocker has to be. -/
def isBlockerRelation (relation : String) : Bool :=
  (units relation).length ≤ 256 && (parseArchRelation relation).isSome

def isAdmissible (item : DependencyBlockerInput) : Bool :=
  item.relation.all isBlockerRelation && (item.resolution ≠ .dependency || item.relation.any (· ≠ ""))

def parseDependencyBlockers : Option (Json String) → Except String (List DependencyBlockerInput)
  | none => .ok []
  | some (.arr values) =>
    match values.mapM blockerSchema with
    | none => .error "Report between 1 and 16 dependency blockers"
    | some items =>
      if items = [] ∨ items.length > 16 then .error "Report between 1 and 16 dependency blockers"
      else if items.all isAdmissible = true then .ok items
      else .error "Invalid dependency blocker; report evidence without executable input or admission authority"
  | some _ => .error "Report between 1 and 16 dependency blockers"

end Omapkg.Server.Dependency
