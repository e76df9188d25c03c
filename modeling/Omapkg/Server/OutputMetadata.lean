import Omapkg.Server.Arch
import Omapkg.Server.Decoded
import Omapkg.Server.OwnedRepository
/-!
# Metadata of an output

`parsePackageMetadata` of `src/src/lib/server/arch.ts` and `parseOutputMetadata`
of `src/src/lib/output-contract.ts`, on a decoded value.
-/

namespace Omapkg.Server.Arch

open Json
open Omapkg.Server.Owned (ArtifactArchitecture)

def textOf : Option (Json String) → Option String
  | some (.str s) => some s
  | _ => none

/-- An array of at most 256 strings. -/
def textArray : Option (Json String) → Option (List String)
  | some (.arr xs) => if xs.length ≤ 256 then xs.mapM fun x => textOf (some x) else none
  | _ => none

/-- An integer from zero on. -/
def naturalOf : Option (Json String) → Option Nat
  | some (.num n) =>
    let value := Nat.ofDigitChars 10 n.text 0
    if n = .ofNat value then some value else none
  | _ => none

def readArchitecture (s : String) : Option Architecture :=
  if s = "x86_64" then some .x86_64 else if s = "aarch64" then some .aarch64 else none

/-- `packageMetadataSchema`. -/
def packageMetadataSchema (value : Json String) : Option PackageMetadata :=
  if hasKeys ["name", "fullVersion", "architecture", "installedSize", "depends", "provides", "conflicts", "replaces"] []
      value = false then none
  else do
    let name ← textOf (property "name" value)
    let fullVersion ← textOf (property "fullVersion" value)
    let architecture ← (textOf (property "architecture" value)).bind readArchitecture
    let installedSize ← naturalOf (property "installedSize" value)
    let depends ← textArray (property "depends" value)
    let provides ← textArray (property "provides" value)
    let conflicts ← textArray (property "conflicts" value)
    let replaces ← textArray (property "replaces" value)
    some { name, fullVersion, architecture, installedSize, depends, provides, conflicts, replaces }

def parsePackageMetadata (value : Json String) : Option PackageMetadata := do
  let object ← packageMetadataSchema value
  if isPackageName object.name.toList = false ∨ (parseArchPackageVersion object.fullVersion.toList).isNone then none
  else do
    let depends ← relationList false true object.depends
    let provides ← relationList true true object.provides
    let conflicts ← relationList false false object.conflicts
    let replaces ← relationList false false object.replaces
    some { object with depends, provides, conflicts, replaces }

theorem textArray_map {xs : List String} (h : xs.length ≤ 256) :
    textArray (some (.arr (xs.map .str))) = some xs := by
  have hmap : ∀ xs : List String, (xs.map Json.str).mapM (fun x => textOf (some x)) = some xs := by
    intro xs
    induction xs with
    | nil => rfl
    | cons x xs ih => rw [List.map_cons, List.mapM_cons, ih]; rfl
  rw [textArray, List.length_map, if_pos h]
  exact hmap xs

theorem naturalOf_ofNat (n : Nat) : naturalOf (some (.num (.ofNat n))) = some n := by
  have htext : Nat.ofDigitChars 10 (Numeral.ofNat n).text 0 = n := Nat.ofDigitChars_ten_toDigits
  simp [naturalOf, htext]

theorem relationList_some {provides allowSoname : Bool} {values values' : List String}
    (h : relationList provides allowSoname values = some values') :
    values' = values ∧ ∀ r ∈ values, isRelation provides allowSoname r = true := by
  unfold relationList at h
  split at h
  · rename_i hall
    cases h
    exact ⟨rfl, fun r hr => List.all_eq_true.mp hall r hr⟩
  · cases h

/-! ## Outputs -/

structure ExpectedOutput where
  name : String
  fullVersion : String
  architecture : ArtifactArchitecture

structure OutputMetadata where
  name : String
  fullVersion : String
  architecture : ArtifactArchitecture
  installedSize : Nat
  depends : List String
  provides : List String
  conflicts : List String
  replaces : List String
  deriving DecidableEq

/-- `{ ...item, architecture: 'x86_64' }` of an item with an architecture. -/
def withNative : Json String → Json String
  | .obj ms => .obj (ms.map fun m => if m.1 = "architecture" then (m.1, .str "x86_64") else m)
  | v => v

def readArtifactArchitecture (s : String) : Option ArtifactArchitecture :=
  if s = "any" then some .any else if s = "x86_64" then some .x86_64 else if s = "aarch64" then some .aarch64 else none

def parseOutputMetadata (value : Json String) : Option OutputMetadata := do
  let native ← parsePackageMetadata (if isText "any" (property "architecture" value) then withNative value else value)
  let architecture ← (textOf (property "architecture" value)).bind readArtifactArchitecture
  some { native with architecture }

end Omapkg.Server.Arch
