import Mathlib.Logic.Relation
/-!
# Walks along paths with links

A path is walked one part at a time. A name that is a link puts the link's own
parts before what is left of the path, from the root or from the place that
holds the link; the part above leaves the place that was really reached. A walk
escapes when it would leave the root.
-/

namespace PathWalk

open Relation

variable {α : Type}

/-- A part of a path: none, the place above, or a name. -/
inductive PathPart (α : Type) where
  | stay
  | up
  | name (a : α)
  deriving DecidableEq

/-- What a link stands for. -/
structure Link (α : Type) where
  absolute : Bool
  target : List (PathPart α)
  deriving DecidableEq

/-- Which places are links, and which others are entered with what is left of a path. -/
structure LinkTree (α : Type) where
  link : List α → Option (Link α)
  enters : List α → List (PathPart α) → Prop

/-- The place that a walk has come to, and what it has still to walk. -/
structure Walk (α : Type) where
  place : List α
  parts : List (PathPart α)

def Link.start (l : Link α) (place : List α) : List α := if l.absolute then [] else place

inductive Step (t : LinkTree α) : Walk α → Walk α → Prop where
  | stay {place : List α} {parts : List (PathPart α)} : Step t ⟨place, .stay :: parts⟩ ⟨place, parts⟩
  | up {place : List α} {parts : List (PathPart α)} (h : place ≠ []) :
      Step t ⟨place, .up :: parts⟩ ⟨place.dropLast, parts⟩
  | enter {place : List α} {a : α} {parts : List (PathPart α)} (h : t.link (place ++ [a]) = none)
      (he : t.enters (place ++ [a]) parts) : Step t ⟨place, .name a :: parts⟩ ⟨place ++ [a], parts⟩
  | follow {place : List α} {a : α} {parts : List (PathPart α)} {l : Link α} (h : t.link (place ++ [a]) = some l) :
      Step t ⟨place, .name a :: parts⟩ ⟨l.start place, l.target ++ parts⟩

def Walk.Escapes (w : Walk α) : Prop := w.place = [] ∧ w.parts.head? = some .up

theorem Step.unique {t : LinkTree α} {w a b : Walk α} (ha : Step t w a) (hb : Step t w b) : a = b := by
  cases ha with
  | stay => cases hb; rfl
  | up => cases hb; rfl
  | enter hno _ =>
    cases hb with
    | enter => rfl
    | follow hsome =>
      rw [hno] at hsome
      cases hsome
  | follow hsome =>
    cases hb with
    | enter hno _ =>
      rw [hno] at hsome
      cases hsome
    | follow hsome' =>
      rw [hsome] at hsome'
      cases hsome'
      rfl

/-- A walk comes to one end. -/
theorem Step.end_unique {t : LinkTree α} {w : Walk α} {a b : List α} (ha : ReflTransGen (Step t) w ⟨a, []⟩)
    (hb : ReflTransGen (Step t) w ⟨b, []⟩) : a = b := by
  have hdone : ∀ {c d : List α}, ReflTransGen (Step t) ⟨c, []⟩ ⟨d, []⟩ → c = d := by
    intro c d hsteps
    rcases hsteps.cases_head with heq | ⟨w', hstep, -⟩
    · cases heq
      rfl
    · cases hstep
  have hunique : Relator.RightUnique (Step t) := fun _ _ _ => Step.unique
  rcases ReflTransGen.total_of_right_unique hunique ha hb with hab | hba
  · exact hdone hab
  · exact (hdone hba).symm

theorem Step.not_escapes {t : LinkTree α} {w w' : Walk α} (h : Step t w w') : ¬w.Escapes := by
  rintro ⟨hplace, hhead⟩
  cases h with
  | stay => cases hhead
  | up hne => exact hne hplace
  | enter => cases hhead
  | follow => cases hhead

/-- A walk that ends, and escapes nowhere. -/
inductive Safe (t : LinkTree α) : Walk α → Prop where
  | intro {w : Walk α} (h : ¬w.Escapes) (hnext : ∀ w', Step t w w' → Safe t w') : Safe t w

theorem Safe.stays {t : LinkTree α} {w w' : Walk α} (h : Safe t w) (hsteps : ReflTransGen (Step t) w w') : ¬w'.Escapes := by
  induction hsteps using ReflTransGen.head_induction_on with
  | refl =>
    cases h with
    | intro h _ => exact h
  | head hstep _ ih =>
    cases h with
    | intro _ hnext => exact ih (hnext _ hstep)

theorem Safe.ends {t : LinkTree α} {w : Walk α} (h : Safe t w) : Acc (fun b a => Step t a b) w := by
  induction h with
  | intro _ _ ih => exact Acc.intro _ ih

/-- A walk has one next step. -/
theorem Safe.back {t : LinkTree α} {w w' : Walk α} (h : Safe t w') (hsteps : ReflTransGen (Step t) w w') : Safe t w := by
  induction hsteps using ReflTransGen.head_induction_on with
  | refl => exact h
  | head hstep _ ih => exact .intro hstep.not_escapes fun _ hother => hstep.unique hother ▸ ih

/-- With fewer places to enter a walk has fewer steps. -/
theorem Safe.mono {t t' : LinkTree α} (hlink : t'.link = t.link)
    (henters : ∀ place parts, t'.enters place parts → t.enters place parts) {w : Walk α} (h : Safe t w) : Safe t' w := by
  induction h with
  | intro h _ ih =>
    refine .intro h fun w' hstep => ih w' ?_
    cases hstep with
    | stay => exact .stay
    | up hne => exact .up hne
    | enter hno he => exact .enter (hlink ▸ hno) (henters _ _ he)
    | follow hsome => exact .follow (hlink ▸ hsome)

/-- Names that are no links lead down to the place that they spell. -/
theorem walk_down {t : LinkTree α} (henters : ∀ place parts, t.enters place parts) (place names : List α)
    (parts : List (PathPart α)) (hno : ∀ before, before <+: names → before ≠ [] → t.link (place ++ before) = none) :
    ReflTransGen (Step t) ⟨place, names.map .name ++ parts⟩ ⟨place ++ names, parts⟩ := by
  induction names generalizing place with
  | nil =>
    rw [List.append_nil]
    exact .refl
  | cons a names ih =>
    have hfirst : Step t ⟨place, .name a :: (names.map .name ++ parts)⟩ ⟨place ++ [a], names.map .name ++ parts⟩ :=
      .enter (hno [a] ⟨names, rfl⟩ (List.cons_ne_nil _ _)) (henters _ _)
    refine .head hfirst ?_
    have hrest := ih (place ++ [a]) fun before hbefore hne => by
      rw [List.append_assoc]
      exact hno (a :: before) (List.cons_prefix_cons.mpr ⟨rfl, hbefore⟩) (List.cons_ne_nil _ _)
    rw [List.append_assoc] at hrest
    exact hrest

end PathWalk
