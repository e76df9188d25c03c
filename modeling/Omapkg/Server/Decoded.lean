import Mathlib.Data.List.Nodup
import Mathlib.Tactic.Common
import Omapkg.Lib.Json
import Omapkg.Lib.Numeral
/-!
# Decoded values

What the server's checks look at in a value that `JSON.parse` gave: the
properties of an object and what they are compared with.
-/

namespace Omapkg.Server

open Json

/-- The value of a property, which the last member of its name has. -/
def property (name : String) : Json String → Option (Json String)
  | .obj ms => (ms.reverse.find? (·.1 = name)).map (·.2)
  | _ => none

def isNumber (n : Nat) : Option (Json String) → Bool
  | some (.num m) => m = .ofNat n
  | _ => false

def isText (s : String) : Option (Json String) → Bool
  | some (.str t) => t = s
  | _ => false

def isTextOrNull : Option String → Option (Json String) → Bool
  | some s, v => isText s v
  | none, some .null => true
  | none, _ => false

/-- An object with these members, and no others but the optional ones. -/
def hasKeys (required optional : List String) : Json String → Bool
  | .obj ms => required.all (fun key => ms.any (·.1 = key)) && ms.all fun m => (required ++ optional).contains m.1
  | _ => false

/-- A property of an object without repeated names. -/
theorem property_of_mem {ms : List (String × Json String)} (h : (ms.map Prod.fst).Nodup) {name : String}
    {v : Json String} (hm : (name, v) ∈ ms) : property name (.obj ms) = some v := by
  rw [property]
  cases hfound : ms.reverse.find? (·.1 = name) with
  | none =>
    have hnone := List.find?_eq_none.mp hfound (name, v) (List.mem_reverse.mpr hm)
    simp at hnone
  | some m =>
    have hname : m.1 = name := by simpa using List.find?_some hfound
    have hmem : m ∈ ms := List.mem_reverse.mp (List.mem_of_find?_eq_some hfound)
    have heq : m = (name, v) := List.inj_on_of_nodup_map h hmem hm hname
    rw [heq]
    rfl

end Omapkg.Server
