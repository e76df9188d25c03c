import Mathlib.Algebra.BigOperators.Group.Finset.Basic
import Mathlib.Logic.Relation
/-!
# Searching a graph

A queue and what was seen: the first of the queue is taken, passed over if it
was seen before, and else followed, until one is hit. With enough rounds the
search says just if a hit is reached.
-/

namespace Omapkg.Search

open Relation

section
variable {α : Type} {next : α → List α} {hit : α → Bool}

/-- `fuel` bounds the rounds. -/
def search [DecidableEq α] (next : α → List α) (hit : α → Bool) : Nat → List α → List α → Bool
  | 0, _, _ => false
  | _ + 1, [], _ => false
  | fuel + 1, a :: queue, seen =>
    if a ∈ seen then search next hit fuel queue seen
    else if hit a then true
    else search next hit fuel (queue ++ next a) (a :: seen)

/-- A step of the graph. -/
def Step (next : α → List α) (a b : α) : Prop := b ∈ next a

/-- A hit is reached. -/
def Hits (next : α → List α) (hit : α → Bool) (a : α) : Prop := ∃ b, ReflTransGen (Step next) a b ∧ hit b = true

theorem Hits.step {a b : α} (h : Hits next hit b) (hab : b ∈ next a) : Hits next hit a := by
  obtain ⟨c, hbc, hc⟩ := h
  exact ⟨c, .head hab hbc, hc⟩

/-- What was seen is no hit, and what follows it is seen or waits. -/
structure Followed (next : α → List α) (hit : α → Bool) (queue seen : List α) : Prop where
  missed : ∀ a ∈ seen, hit a = false
  waits : ∀ a ∈ seen, ∀ b ∈ next a, b ∈ seen ∨ b ∈ queue

/-- Where nothing waits, nothing that was seen reaches a hit. -/
theorem Followed.no_hit {seen : List α} (h : Followed next hit [] seen) {a : α} (ha : a ∈ seen) : ¬Hits next hit a := by
  rintro ⟨b, hab, hb⟩
  have hseen : b ∈ seen := by
    clear hb
    induction hab with
    | refl => exact ha
    | tail _ hstep ih =>
      exact (h.waits _ ih _ hstep).resolve_right List.not_mem_nil
  rw [h.missed b hseen] at hb
  cases hb

theorem Followed.follow {a : α} {queue seen : List α} (h : Followed next hit (a :: queue) seen) (hhit : ¬hit a = true) :
    Followed next hit (queue ++ next a) (a :: seen) := by
  refine ⟨?_, ?_⟩
  · intro b hb
    rcases List.mem_cons.mp hb with rfl | hb
    · simpa using hhit
    · exact h.missed b hb
  · intro b hb c hc
    rcases List.mem_cons.mp hb with rfl | hb
    · exact .inr (List.mem_append_right _ hc)
    · rcases h.waits b hb c hc with hseen | hqueue
      · exact .inl (List.mem_cons_of_mem _ hseen)
      · rcases List.mem_cons.mp hqueue with rfl | hqueue
        · exact .inl List.mem_cons_self
        · exact .inr (List.mem_append_left _ hqueue)

theorem Followed.pass {a : α} {queue seen : List α} (h : Followed next hit (a :: queue) seen) (ha : a ∈ seen) :
    Followed next hit queue seen := by
  refine ⟨h.missed, ?_⟩
  intro b hb c hc
  rcases h.waits b hb c hc with hseen | hqueue
  · exact .inl hseen
  · rcases List.mem_cons.mp hqueue with rfl | hqueue
    · exact .inl ha
    · exact .inr hqueue

variable [DecidableEq α]

/-- What a search finds is reached. -/
theorem search_sound {fuel : Nat} {queue seen : List α} (h : search next hit fuel queue seen = true) :
    ∃ a ∈ queue, Hits next hit a := by
  induction fuel generalizing queue seen with
  | zero => cases h
  | succ fuel ih =>
    cases queue with
    | nil => cases h
    | cons a queue =>
      unfold search at h
      split at h
      · obtain ⟨b, hb, hhits⟩ := ih h
        exact ⟨b, List.mem_cons_of_mem _ hb, hhits⟩
      · split at h
        · next hhit => exact ⟨a, List.mem_cons_self, a, .refl, hhit⟩
        · obtain ⟨b, hb, hhits⟩ := ih h
          rcases List.mem_append.mp hb with hb | hb
          · exact ⟨b, List.mem_cons_of_mem _ hb, hhits⟩
          · exact ⟨a, List.mem_cons_self, hhits.step hb⟩

/-- The rounds that are left: one for each that waits, or will. -/
def rounds (next : α → List α) (U : Finset α) (queue seen : List α) : Nat :=
  queue.length + ∑ a ∈ U.filter (· ∉ seen), (next a).length

theorem rounds_follow (next : α → List α) {U : Finset α} {a : α} (queue : List α) {seen : List α} (hU : a ∈ U) (hseen : a ∉ seen) :
    rounds next U (a :: queue) seen = rounds next U (queue ++ next a) (a :: seen) + 1 := by
  have hsplit : U.filter (· ∉ seen) = insert a (U.filter (· ∉ a :: seen)) := by
    ext b
    by_cases hb : b = a
    · simp [hb, hU, hseen]
    · simp [hb]
  have hfresh : a ∉ U.filter (· ∉ a :: seen) := by simp
  unfold rounds
  rw [hsplit, Finset.sum_insert hfresh, List.length_append, List.length_cons]
  omega

/-- In a graph of finitely many places, a search with enough rounds misses nothing. -/
theorem search_complete {U : Finset α} (hclosed : ∀ a ∈ U, ∀ b ∈ next a, b ∈ U) {fuel : Nat} {queue seen : List α}
    (hqueue : ∀ a ∈ queue, a ∈ U) (hfollowed : Followed next hit queue seen) (hfuel : rounds next U queue seen ≤ fuel)
    (h : ∃ a, (a ∈ queue ∨ a ∈ seen) ∧ Hits next hit a) : search next hit fuel queue seen = true := by
  induction fuel generalizing queue seen with
  | zero =>
    have hempty : queue = [] := by
      rw [← List.length_eq_zero_iff]
      unfold rounds at hfuel
      omega
    subst hempty
    obtain ⟨a, ha, hhits⟩ := h
    exact absurd hhits (hfollowed.no_hit (ha.resolve_left List.not_mem_nil))
  | succ fuel ih =>
    cases queue with
    | nil =>
      obtain ⟨a, ha, hhits⟩ := h
      exact absurd hhits (hfollowed.no_hit (ha.resolve_left List.not_mem_nil))
    | cons a queue =>
      obtain ⟨b, hb, hhits⟩ := h
      unfold search
      split
      · next hseen =>
        apply ih
        · exact fun c hc => hqueue c (List.mem_cons_of_mem _ hc)
        · exact hfollowed.pass hseen
        · unfold rounds at hfuel ⊢
          rw [List.length_cons] at hfuel
          omega
        · refine ⟨b, ?_, hhits⟩
          rcases hb with hb | hb
          · rcases List.mem_cons.mp hb with rfl | hb
            · exact .inr hseen
            · exact .inl hb
          · exact .inr hb
      · next hseen =>
        split
        · rfl
        · next hhit =>
          apply ih
          · intro c hc
            rcases List.mem_append.mp hc with hc | hc
            · exact hqueue c (List.mem_cons_of_mem _ hc)
            · exact hclosed a (hqueue a List.mem_cons_self) c hc
          · exact hfollowed.follow hhit
          · have hrounds := rounds_follow next queue (hqueue a List.mem_cons_self) hseen
            omega
          · refine ⟨b, ?_, hhits⟩
            rcases hb with hb | hb
            · rcases List.mem_cons.mp hb with rfl | hb
              · exact .inr List.mem_cons_self
              · exact .inl (List.mem_append_left _ hb)
            · exact .inr (List.mem_cons_of_mem _ hb)

/-- A search from the start says just if a hit is reached. -/
theorem search_iff {U : Finset α} (hclosed : ∀ a ∈ U, ∀ b ∈ next a, b ∈ U) {fuel : Nat} {queue : List α}
    (hqueue : ∀ a ∈ queue, a ∈ U) (hfuel : rounds next U queue [] ≤ fuel) :
    search next hit fuel queue [] = true ↔ ∃ a ∈ queue, Hits next hit a := by
  refine ⟨search_sound, fun ⟨a, ha, hhits⟩ => ?_⟩
  exact search_complete hclosed hqueue ⟨by simp, by simp⟩ hfuel ⟨a, .inl ha, hhits⟩

end

end Omapkg.Search
