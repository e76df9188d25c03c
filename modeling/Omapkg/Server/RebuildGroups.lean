import Mathlib.Algebra.BigOperators.Group.List.Lemmas
import Mathlib.Algebra.Order.BigOperators.Group.List
import Mathlib.Algebra.Order.Group.Nat
import Omapkg.Lib.Components
import Omapkg.Server.RebuildMembers
/-!
# The groups of a rebuild plan

The first search leaves the bases in an order that ends each component after all
that it reaches; the second takes one component after the other, against the
dependencies, in the reverse of that order. So the groups are the components of
the candidate's dependencies, and none comes before one that it needs.
-/

namespace Omapkg.Server.Rebuild

open Components

/-! ## The first search -/

/-- The places that were entered and not left. -/
def opened (stack : List (String × Bool)) : List String := (stack.filter (·.2)).map (·.1)

theorem mem_opened {stack : List (String × Bool)} {a : String} : a ∈ opened stack ↔ (a, true) ∈ stack := by
  simp [opened]

/-- What an open place leads to was seen or waits above it. -/
def Waits (edges : String → List String) (seen : List String) : List String → List (String × Bool) → Prop
  | _, [] => True
  | waiting, (a, false) :: stack => Waits edges seen (a :: waiting) stack
  | waiting, (a, true) :: stack => (∀ b ∈ edges a, b ∈ seen ∨ b ∈ waiting) ∧ Waits edges seen waiting stack

theorem Waits.mono {edges : String → List String} {seen seen' waiting waiting' : List String} {stack : List (String × Bool)}
    (h : Waits edges seen waiting stack) (hsub : ∀ b, b ∈ seen ∨ b ∈ waiting → b ∈ seen' ∨ b ∈ waiting') :
    Waits edges seen' waiting' stack := by
  induction stack generalizing waiting waiting' with
  | nil => trivial
  | cons e stack ih =>
    obtain ⟨a, b⟩ := e
    cases b with
    | false =>
      show Waits edges seen' (a :: waiting') stack
      refine ih (show Waits edges seen (a :: waiting) stack from h) ?_
      intro b hb
      simp only [List.mem_cons] at hb ⊢
      have := hsub b
      tauto
    | true => exact ⟨fun b hb => hsub b (h.1 b hb), ih h.2 hsub⟩

theorem waits_push {edges : String → List String} {seen : List String} (new waiting : List String)
    {stack : List (String × Bool)} :
    Waits edges seen waiting (new.map (·, false) ++ stack) ↔ Waits edges seen (new.reverse ++ waiting) stack := by
  induction new generalizing waiting with
  | nil => rfl
  | cons a new ih =>
    rw [List.reverse_cons, List.append_assoc, List.singleton_append]
    exact ih (a :: waiting)

/-- What a step of the first search keeps. -/
structure Searching (edges : String → List String) (build : List String) (s : Search) : Prop where
  finishing : Finishing edges s.finished (opened s.stack)
  seen : ∀ a, a ∈ s.seen ↔ a ∈ s.finished ∨ a ∈ opened s.stack
  followed : ∀ a ∈ s.finished, ∀ b ∈ edges a, b ∈ s.seen
  waits : Waits edges s.seen [] s.stack
  above : s.stack.Pairwise fun a b => b.2 = true → Reach edges b.1 a.1
  inside : ∀ e ∈ s.stack, e.1 ∈ build
  within : ∀ a ∈ s.seen, a ∈ build

theorem Searching.step {edges : String → List String} {build : List String} {s : Search} (h : Searching edges build s)
    (hedges : ∀ a ∈ build, ∀ b ∈ edges a, b ∈ build) : Searching edges build (s.step edges) := by
  obtain ⟨stack, seen, finished⟩ := s
  obtain ⟨hfinishing, hseen, hfollowed, hwaits, habove, hinside, hwithin⟩ := h
  simp only at hfinishing hseen hfollowed hwaits habove hinside hwithin
  cases stack with
  | nil => exact ⟨hfinishing, hseen, hfollowed, hwaits, habove, hinside, hwithin⟩
  | cons e stack =>
    obtain ⟨node, returning⟩ := e
    rw [List.pairwise_cons] at habove
    rw [List.forall_mem_cons] at hinside
    cases returning with
    | true =>
      have hopen : opened ((node, true) :: stack) = node :: opened stack := rfl
      rw [hopen] at hfinishing
      simp only [hopen, List.mem_cons] at hseen
      have hnode : ∀ b ∈ edges node, b ∈ seen := fun b hb => (hwaits.1 b hb).resolve_right List.not_mem_nil
      have hall : ∀ u, u = node ∨ u ∈ finished → ∀ b ∈ edges u, b ∈ seen := by
        rintro u (rfl | hu) b hb
        · exact hnode b hb
        · exact hfollowed u hu b hb
      refine ⟨hfinishing.leave ?_ ?_, ?_, ?_, hwaits.2, habove.2, hinside.2, hwithin⟩
      · intro u hu b hb
        rw [List.mem_cons]
        exact (hseen b).mp (hall u hu b hb)
      · exact fun y hy => habove.1 (y, true) (mem_opened.mp hy) rfl
      · intro a
        simp only [Search.step, hseen, List.mem_append, List.mem_singleton]
        tauto
      · intro a ha
        refine hall a ?_
        have := List.mem_append.mp ha
        rw [List.mem_singleton] at this
        exact this.symm
    | false =>
      have hopen : opened ((node, false) :: stack) = opened stack := rfl
      rw [hopen] at hfinishing
      simp only [hopen] at hseen
      unfold Search.step
      by_cases hmem : node ∈ seen
      · simp only [if_pos hmem]
        refine ⟨hfinishing, hseen, hfollowed, Waits.mono (show Waits edges seen [node] stack from hwaits) ?_, habove.2, hinside.2, hwithin⟩
        rintro b (hb | hb)
        · exact .inl hb
        · rw [List.mem_singleton] at hb
          exact .inl (hb ▸ hmem)
      · simp only [if_neg hmem]
        generalize hnew : (edges node).filter (· ∉ node :: seen) = new
        have hmemnew (b : String) : b ∈ new ↔ b ∈ edges node ∧ b ∉ node :: seen := by
          rw [← hnew, List.mem_filter, decide_eq_true_eq]
        have hopen' : opened (new.map (·, false) ++ (node, true) :: stack) = node :: opened stack := by
          have hfalse : (new.map (·, false)).filter (·.2) = [] := by simp [List.filter_eq_nil_iff]
          rw [opened, List.filter_append, hfalse]
          rfl
        refine ⟨?_, ?_, ?_, ?_, ?_, ?_, ?_⟩
        · rw [hopen']
          refine hfinishing.enter ?_
          rw [List.mem_append, ← hseen]
          exact hmem
        · intro a
          simp only [hopen', List.mem_cons, hseen]
          tauto
        · exact fun a ha b hb => List.mem_cons_of_mem _ (hfollowed a ha b hb)
        · simp only
          rw [waits_push]
          refine ⟨?_, Waits.mono (show Waits edges seen [node] stack from hwaits) ?_⟩
          · intro b hb
            by_cases hb' : b ∈ node :: seen
            · exact .inl hb'
            · exact .inr (by simp [hmemnew, hb, hb'])
          · rintro b (hb | hb)
            · exact .inl (List.mem_cons_of_mem _ hb)
            · rw [List.mem_singleton] at hb
              exact .inl (hb ▸ List.mem_cons_self)
        · refine List.pairwise_append.mpr ⟨?_, List.pairwise_cons.mpr ⟨habove.1, habove.2⟩, ?_⟩
          · refine List.pairwise_map.mpr (List.pairwise_of_forall fun a b h => ?_)
            cases h
          · intro e he e' he' htrue
            obtain ⟨b, hb, rfl⟩ := List.mem_map.mp he
            have hstep : Reach edges node b := .single ((hmemnew b).mp hb).1
            rcases List.mem_cons.mp he' with rfl | he'
            · exact hstep
            · exact Relation.ReflTransGen.trans (habove.1 e' he' htrue) hstep
        · intro e he
          rcases List.mem_append.mp he with he | he
          · obtain ⟨b, hb, rfl⟩ := List.mem_map.mp he
            exact hedges node hinside.1 b ((hmemnew b).mp hb).1
          · rcases List.mem_cons.mp he with rfl | he
            · exact hinside.1
            · exact hinside.2 e he
        · intro a ha
          rcases List.mem_cons.mp ha with rfl | ha
          · exact hinside.1
          · exact hwithin a ha

/-- The steps that are left. -/
def searchLeft (edges : String → List String) (build : List String) (s : Search) : Nat :=
  s.stack.length + ((build.filter (· ∉ s.seen)).map fun a => (edges a).length + 1).sum

theorem searchLeft_step {edges : String → List String} {build : List String} (hbuild : build.Nodup) {s : Search}
    (h : Searching edges build s) (hstack : s.stack ≠ []) :
    searchLeft edges build (s.step edges) < searchLeft edges build s := by
  obtain ⟨stack, seen, finished⟩ := s
  have hinside := h.inside
  simp only at hstack hinside
  cases stack with
  | nil => exact absurd rfl hstack
  | cons e stack =>
    obtain ⟨node, returning⟩ := e
    unfold searchLeft
    cases returning with
    | true => exact Nat.add_lt_add_right (Nat.lt_succ_self stack.length) _
    | false =>
      by_cases hmem : node ∈ seen
      · simp only [Search.step, if_pos hmem, List.length_cons]
        exact Nat.add_lt_add_right (Nat.lt_succ_self stack.length) _
      · simp only [Search.step, if_neg hmem, List.length_append, List.length_map, List.length_cons]
        have hnode : node ∈ build := hinside (node, false) List.mem_cons_self
        have hperm : (build.filter (· ∉ seen)).Perm (node :: build.filter (· ∉ node :: seen)) := by
          refine (List.perm_ext_iff_of_nodup (hbuild.filter _) (List.nodup_cons.mpr ⟨by simp, hbuild.filter _⟩)).mpr ?_
          intro a
          by_cases ha : a = node
          · simp [ha, hnode, hmem]
          · simp [ha]
        have hsum := (hperm.map fun a => (edges a).length + 1).sum_eq
        rw [List.map_cons, List.sum_cons] at hsum
        have hle := List.length_filter_le (fun b => decide (b ∉ node :: seen)) (edges node)
        omega

theorem Search.step_nil {edges : String → List String} {s : Search} (h : s.stack = []) : s.step edges = s := by
  unfold Search.step
  rw [h]

/-- A place that was seen, or waits, stays so. -/
theorem Search.step_keeps {edges : String → List String} {s : Search} {a : String} (h : a ∈ s.seen ∨ (a, false) ∈ s.stack) :
    a ∈ (s.step edges).seen ∨ (a, false) ∈ (s.step edges).stack := by
  obtain ⟨stack, seen, finished⟩ := s
  cases stack with
  | nil => exact h
  | cons e stack =>
    obtain ⟨node, returning⟩ := e
    cases returning with
    | true => simpa [Search.step] using h
    | false =>
      by_cases hmem : node ∈ seen
      · simp only [Search.step, if_pos hmem, List.mem_cons, Prod.mk.injEq, and_true] at h ⊢
        rcases h with h | rfl | h
        · exact .inl h
        · exact .inl hmem
        · exact .inr h
      · simp only [Search.step, if_neg hmem, List.mem_cons, List.mem_append, Prod.mk.injEq, and_true] at h ⊢
        tauto

theorem search_runs {edges : String → List String} {build : List String} (hbuild : build.Nodup)
    (hedges : ∀ a ∈ build, ∀ b ∈ edges a, b ∈ build) {n : Nat} {s : Search} (h : Searching edges build s)
    (hn : searchLeft edges build s ≤ n) {a : String} (ha : a ∈ s.seen ∨ (a, false) ∈ s.stack) :
    Searching edges build ((Search.step edges)^[n] s) ∧ ((Search.step edges)^[n] s).stack = [] ∧
      a ∈ ((Search.step edges)^[n] s).seen := by
  induction n generalizing s with
  | zero =>
    have hstack : s.stack = [] := by
      unfold searchLeft at hn
      exact List.length_eq_zero_iff.mp (by omega)
    refine ⟨h, hstack, ha.resolve_right ?_⟩
    rw [hstack]
    exact List.not_mem_nil
  | succ n ih =>
    by_cases hstack : s.stack = []
    · rw [Function.iterate_fixed (Search.step_nil hstack)]
      refine ⟨h, hstack, ha.resolve_right ?_⟩
      rw [hstack]
      exact List.not_mem_nil
    · have hless := searchLeft_step hbuild h hstack
      rw [Function.iterate_succ_apply]
      exact ih (h.step hedges) (by omega) (Search.step_keeps ha)

theorem search_seen {edges : String → List String} (n : Nat) {s : Search} {a : String} (ha : a ∈ s.seen) :
    a ∈ ((Search.step edges)^[n] s).seen := by
  induction n generalizing s with
  | zero => exact ha
  | succ n ih =>
    rw [Function.iterate_succ_apply]
    refine ih ?_
    obtain ⟨stack, seen, finished⟩ := s
    unfold Search.step
    split
    · exact ha
    · exact ha
    · split
      · exact ha
      · exact List.mem_cons_of_mem _ ha

theorem searchFrom_searching {edges : String → List String} {build : List String} (hbuild : build.Nodup)
    (hedges : ∀ a ∈ build, ∀ b ∈ edges a, b ∈ build) {s : List String × List String} (h : Searching edges build ⟨[], s.1, s.2⟩)
    {root : String} (hroot : root ∈ build) :
    Searching edges build ⟨[], (searchFrom edges build s root).1, (searchFrom edges build s root).2⟩ ∧
      s.1 ⊆ (searchFrom edges build s root).1 ∧ root ∈ (searchFrom edges build s root).1 := by
  have hstart : Searching edges build ⟨[(root, false)], s.1, s.2⟩ :=
    ⟨h.finishing, h.seen, h.followed, trivial, List.pairwise_singleton _ _, by simpa using hroot, h.within⟩
  have hrounds : searchLeft edges build ⟨[(root, false)], s.1, s.2⟩ ≤ searchRounds edges build := by
    have hsub : ((build.filter (· ∉ s.1)).map fun a => (edges a).length + 1).Sublist
        (build.map fun a => (edges a).length + 1) := List.filter_sublist.map _
    have hle := hsub.sum_le_sum (by simp)
    have hsum : (build.map fun a => (edges a).length + 1).sum = (build.map fun a => (edges a).length).sum + build.length := by
      rw [List.sum_map_add]
      simp
    unfold searchLeft searchRounds
    simp only [List.length_singleton]
    omega
  obtain ⟨hs, hstack, hseen⟩ := search_runs hbuild hedges hstart hrounds (a := root) (.inr List.mem_cons_self)
  refine ⟨?_, fun a ha => search_seen _ ha, hseen⟩
  unfold searchFrom
  simp only
  generalize (Search.step edges)^[searchRounds edges build] ⟨[(root, false)], s.1, s.2⟩ = s' at hs hstack
  obtain ⟨stack, seen, finished⟩ := s'
  simp only at hstack
  subst hstack
  exact hs

/-- The first search leaves each base once, the last of a component after all that it reaches. -/
theorem finishedOf_finishing {edges : String → List String} {build : List String} (hbuild : build.Nodup)
    (hedges : ∀ a ∈ build, ∀ b ∈ edges a, b ∈ build) :
    Finishing edges (finishedOf edges build) [] ∧ ∀ a, a ∈ finishedOf edges build ↔ a ∈ build := by
  have hruns (roots : List String) (hroots : roots ⊆ build) (s : List String × List String)
      (h : Searching edges build ⟨[], s.1, s.2⟩) :
      Searching edges build ⟨[], (roots.foldl (searchFrom edges build) s).1, (roots.foldl (searchFrom edges build) s).2⟩ ∧
        s.1 ⊆ (roots.foldl (searchFrom edges build) s).1 ∧ roots ⊆ (roots.foldl (searchFrom edges build) s).1 := by
    induction roots generalizing s with
    | nil => exact ⟨h, fun _ ha => ha, by simp⟩
    | cons root roots ih =>
      rw [List.cons_subset] at hroots
      obtain ⟨hs, hsub, hroot⟩ := searchFrom_searching hbuild hedges h hroots.1
      obtain ⟨hs', hsub', hmem⟩ := ih hroots.2 _ hs
      exact ⟨hs', fun a ha => hsub' (hsub ha), List.cons_subset.mpr ⟨hsub' hroot, hmem⟩⟩
  have hempty : Searching edges build ⟨[], [], []⟩ :=
    ⟨⟨by simp [opened], by simp⟩, by simp [opened], by simp, trivial, .nil, by simp, by simp⟩
  obtain ⟨hs, -, hall⟩ := hruns build (fun _ ha => ha) ([], []) hempty
  refine ⟨hs.finishing, fun a => ?_⟩
  have hseen := hs.seen a
  simp only [opened, List.filter_nil, List.map_nil, List.not_mem_nil, or_false] at hseen
  exact ⟨fun ha => hs.within a (hseen.mpr ha), fun ha => hseen.mp (hall ha)⟩

/-! ## The second search -/

theorem mem_reversedOf {edges : String → List String} {build : List String} {a b : String} :
    a ∈ reversedOf edges build b ↔ a ∈ build ∧ b ∈ edges a := by
  unfold reversedOf
  simp only [List.mem_flatMap, List.mem_map, List.mem_filter, decide_eq_true_eq]
  constructor
  · rintro ⟨c, hc, b', ⟨hb, rfl⟩, rfl⟩
    exact ⟨hc, hb⟩
  · exact fun ⟨ha, hb⟩ => ⟨a, ha, b, ⟨hb, rfl⟩, rfl⟩

/-- What a step of the second search keeps, from `root`; `taken` was seen before it. -/
structure Collecting (edges : String → List String) (build taken : List String) (root : String) (c : Collect) : Prop where
  nodup : (c.group ++ c.stack).Nodup
  seen : ∀ a, a ∈ c.seen ↔ a ∈ taken ∨ a ∈ c.group ++ c.stack
  fresh : ∀ a ∈ c.group ++ c.stack, a ∈ build ∧ a ∉ taken ∧ Reach edges a root
  followed : ∀ b ∈ c.group, ∀ a ∈ build, b ∈ edges a → a ∈ c.seen
  rooted : root ∈ c.group ++ c.stack

theorem foldl_push (cs : List String) (c : Collect) : ∃ new : List String, new.Nodup ∧
    (∀ a ∈ new, a ∈ cs ∧ a ∉ c.seen) ∧ (∀ a ∈ cs, a ∈ c.seen ∨ a ∈ new) ∧
    cs.foldl Collect.push c = { c with stack := new ++ c.stack, seen := new ++ c.seen } := by
  induction cs generalizing c with
  | nil => exact ⟨[], .nil, by simp, by simp, rfl⟩
  | cons b cs ih =>
    rw [List.foldl_cons]
    obtain ⟨new, hnodup, hnew, hall, heq⟩ := ih (c.push b)
    unfold Collect.push at hnew hall heq
    by_cases hb : b ∈ c.seen
    · simp only [if_pos hb] at hnew hall heq
      refine ⟨new, hnodup, fun a ha => ⟨List.mem_cons_of_mem _ (hnew a ha).1, (hnew a ha).2⟩, ?_, ?_⟩
      · exact List.forall_mem_cons.mpr ⟨.inl hb, hall⟩
      · rw [← heq, Collect.push, if_pos hb]
        unfold Collect.push
        rfl
    · simp only [if_neg hb] at hnew hall heq
      refine ⟨new ++ [b], ?_, ?_, ?_, ?_⟩
      · refine hnodup.append (List.nodup_singleton b) ?_
        intro a ha hab
        obtain rfl := List.mem_singleton.mp hab
        exact (hnew a ha).2 List.mem_cons_self
      · intro a ha
        rcases List.mem_append.mp ha with ha | ha
        · exact ⟨List.mem_cons_of_mem _ (hnew a ha).1, fun h => (hnew a ha).2 (List.mem_cons_of_mem _ h)⟩
        · obtain rfl := List.mem_singleton.mp ha
          exact ⟨List.mem_cons_self, hb⟩
      · refine List.forall_mem_cons.mpr ⟨.inr (by simp), fun a ha => ?_⟩
        have := hall a ha
        simp only [List.mem_cons] at this
        simp only [List.mem_append, List.mem_singleton]
        tauto
      · have hpush : c.push b = { c with seen := b :: c.seen, stack := b :: c.stack } := if_neg hb
        rw [hpush]
        unfold Collect.push
        rw [heq]
        simp

theorem Collecting.step {edges : String → List String} {build taken : List String} {root : String} {c : Collect}
    (h : Collecting edges build taken root c) {node : String} {stack : List String} (hstack : c.stack = node :: stack) :
    Collecting edges build taken root (c.step (reversedOf edges build)) ∧
      (c.step (reversedOf edges build)).group = c.group ++ [node] := by
  obtain ⟨stack', seen, group⟩ := c
  simp only at hstack
  subst hstack
  obtain ⟨hnodup, hseen, hfresh, hfollowed, hrooted⟩ := h
  simp only at hnodup hseen hfresh hfollowed hrooted
  obtain ⟨new, hnew, hnewmem, hall, heq⟩ := foldl_push (reversedOf edges build node) ⟨stack, seen, group ++ [node]⟩
  simp only at hnewmem hall heq
  have hstep : Collect.step (reversedOf edges build) ⟨node :: stack, seen, group⟩ = ⟨new ++ stack, new ++ seen, group ++ [node]⟩ :=
    heq
  have hperm : (group ++ [node] ++ (new ++ stack)).Perm (new ++ (group ++ node :: stack)) := by
    rw [← List.append_assoc (group ++ [node]) new stack]
    refine (List.perm_append_comm.append_right stack).trans ?_
    rw [List.append_assoc, List.append_assoc, List.singleton_append]
  have hmem (a : String) : a ∈ group ++ [node] ++ (new ++ stack) ↔ a ∈ new ∨ a ∈ group ++ node :: stack := by
    rw [hperm.mem_iff, List.mem_append]
  rw [hstep]
  refine ⟨⟨?_, ?_, ?_, ?_, (hmem root).mpr (.inr hrooted)⟩, rfl⟩
  · refine hperm.nodup_iff.mpr (hnew.append hnodup ?_)
    intro a ha ha'
    exact (hnewmem a ha).2 ((hseen a).mpr (.inr ha'))
  · intro a
    simp only
    rw [hmem, List.mem_append, hseen]
    tauto
  · intro a ha
    simp only at ha
    rw [hmem] at ha
    rcases ha with ha | ha
    · obtain ⟨hrev, hnot⟩ := hnewmem a ha
      obtain ⟨hbuild, hedge⟩ := mem_reversedOf.mp hrev
      exact ⟨hbuild, fun htaken => hnot ((hseen a).mpr (.inl htaken)),
        Relation.ReflTransGen.head hedge (hfresh node (by simp)).2.2⟩
    · exact hfresh a ha
  · intro b hb a ha hab
    simp only [List.mem_append, List.mem_singleton] at hb ⊢
    rcases hb with hb | rfl
    · exact .inr (hfollowed b hb a ha hab)
    · exact (hall a (mem_reversedOf.mpr ⟨ha, hab⟩)).symm

theorem collect_runs {edges : String → List String} {build taken : List String} {root : String} {n : Nat} {c : Collect}
    (h : Collecting edges build taken root c) (hn : build.length ≤ n + c.group.length) :
    Collecting edges build taken root ((Collect.step (reversedOf edges build))^[n] c) ∧
      ((Collect.step (reversedOf edges build))^[n] c).stack = [] := by
  have hlength : (c.group ++ c.stack).length ≤ build.length :=
    (h.nodup.subperm fun a ha => (h.fresh a ha).1).length_le
  rw [List.length_append] at hlength
  induction n generalizing c with
  | zero => exact ⟨h, List.length_eq_zero_iff.mp (show c.stack.length = 0 by omega)⟩
  | succ n ih =>
    cases hstack : c.stack with
    | nil =>
      have hfixed : c.step (reversedOf edges build) = c := by
        unfold Collect.step
        rw [hstack]
      rw [Function.iterate_fixed hfixed]
      exact ⟨h, hstack⟩
    | cons node stack =>
      obtain ⟨hc, hgroup⟩ := h.step hstack
      rw [Function.iterate_succ_apply]
      refine ih hc ?_ ?_
      · rw [hgroup, List.length_append, List.length_singleton]
        omega
      · rw [← List.length_append]
        exact (hc.nodup.subperm fun a ha => (hc.fresh a ha).1).length_le

def buildGroup (group : List String) : BuildGroup := ⟨sorted group, group.length > 1⟩

/-- A root that was not seen gives its component. -/
theorem collectFrom_gathered {edges : String → List String} {build : List String}
    (hedges : ∀ a ∈ build, ∀ b ∈ edges a, b ∈ build) {done rest : List String} {root : String}
    (horder : Finishing edges (rest ++ root :: done) []) (hsame : ∀ a, a ∈ rest ++ root :: done ↔ a ∈ build)
    {seen : List String} {groups : List (List String)} (h : Gathered edges build seen groups) (hdone : done ⊆ seen) :
    ∃ seen' groups', collectFrom (reversedOf edges build) build (seen, groups.map buildGroup) root =
        (seen', groups'.map buildGroup) ∧ Gathered edges build seen' groups' ∧ root :: done ⊆ seen' := by
  unfold collectFrom
  by_cases hroot : root ∈ seen
  · rw [if_pos hroot]
    exact ⟨seen, groups, rfl, h, List.cons_subset.mpr ⟨hroot, hdone⟩⟩
  · rw [if_neg hroot]
    have hstart : Collecting edges build seen root ⟨[root], root :: seen, []⟩ := by
      refine ⟨by simp, ?_, ?_, by simp, by simp⟩
      · intro a
        simp [or_comm]
      · intro a ha
        obtain rfl := List.mem_singleton.mp ha
        exact ⟨(hsame a).mp (by simp), hroot, .refl⟩
    obtain ⟨hc, hstack⟩ := collect_runs (n := build.length) hstart (by simp)
    simp only
    generalize (Collect.step (reversedOf edges build))^[build.length] ⟨[root], root :: seen, []⟩ = c at hc hstack
    obtain ⟨stack, seen', group⟩ := c
    simp only at hstack
    subst hstack
    obtain ⟨hnodup, hseen, hfresh, hfollowed, hrooted⟩ := hc
    simp only [List.append_nil] at hnodup hseen hfresh hfollowed hrooted
    refine ⟨seen', groups ++ [group], by simp [buildGroup], ?_, ?_⟩
    · refine h.add hedges horder hsame hdone hroot hnodup hrooted hfresh ?_ hseen
      exact fun a ha b hb hgroup => (hseen a).mp (hfollowed b hgroup a ha hb)
    · exact List.cons_subset.mpr ⟨(hseen root).mpr (.inr hrooted), fun a ha => (hseen a).mpr (.inl (hdone ha))⟩

/-- The groups are the components. -/
theorem groupsOf_gathered {edges : String → List String} {build : List String} (hbuild : build.Nodup)
    (hedges : ∀ a ∈ build, ∀ b ∈ edges a, b ∈ build) :
    ∃ seen groups, groupsOf edges build = (groups.map buildGroup).reverse ∧ Gathered edges build seen groups ∧
      build ⊆ seen := by
  obtain ⟨horder, hsame⟩ := finishedOf_finishing hbuild hedges
  have hruns (roots done : List String) (hsplit : finishedOf edges build = roots.reverse ++ done) (seen : List String)
      (groups : List (List String)) (h : Gathered edges build seen groups) (hdone : done ⊆ seen) :
      ∃ seen' groups', roots.foldl (collectFrom (reversedOf edges build) build) (seen, groups.map buildGroup) =
        (seen', groups'.map buildGroup) ∧ Gathered edges build seen' groups' ∧ finishedOf edges build ⊆ seen' := by
    induction roots generalizing done seen groups with
    | nil =>
      refine ⟨seen, groups, rfl, h, ?_⟩
      rw [hsplit]
      exact hdone
    | cons root roots ih =>
      rw [List.reverse_cons, List.append_assoc, List.singleton_append] at hsplit
      rw [hsplit] at horder hsame
      obtain ⟨seen', groups', heq, h', hdone'⟩ := collectFrom_gathered hedges horder hsame h hdone
      rw [List.foldl_cons, heq]
      exact ih (root :: done) hsplit seen' groups' h' hdone'
  obtain ⟨seen, groups, heq, h, hall⟩ := hruns (finishedOf edges build).reverse [] (by simp) [] [] (gathered_nil edges build)
    (by simp)
  refine ⟨seen, groups, ?_, h, fun a ha => hall ((hsame a).mpr ha)⟩
  unfold groupsOf
  rw [show ([], []) = (([] : List String), ([] : List (List String)).map buildGroup) from rfl, heq]

/-! ## Plans -/

/-- A dependency of the candidate: of its packages, or of a rule between its bases. -/
def CandidateEdge (baseline candidate : List Package) (rules : List RebuildRule) (consumer provider : String) : Prop :=
  consumer ≠ provider ∧ (DependsOn candidate consumer provider ∨
    RuledOn (baseline ++ candidate) rules consumer provider ∧
      (∃ entry ∈ candidate, entry.pkgbase = consumer) ∧ ∃ entry ∈ candidate, entry.pkgbase = provider)

theorem ruleOps_current {g : Graph} {rules : List RebuildRule} {current : Bool} {consumer provider : String}
    (h : .edge current consumer provider ∈ rules.flatMap (ruleOps g)) :
    current = decide (consumer ∈ g.currentBases ∧ provider ∈ g.currentBases) := by
  simp only [ruleOps, triggerOps, ruleOp, List.mem_flatMap, List.mem_map, Op.edge.injEq] at h
  obtain ⟨rule, -, trigger, -, p, -, rfl, rfl, rfl⟩ := h
  rfl

theorem mem_dependencies_iff {baseline candidate : List Package} {architecture : Architecture} {rules : List RebuildRule}
    (h : Accepts baseline candidate architecture rules) {consumer provider : String} :
    (consumer, provider) ∈
        (Graph.empty.runs (graphOps (ofTarget architecture baseline) (ofTarget architecture candidate) rules)).dependencies ↔
      CandidateEdge (ofTarget architecture baseline) (ofTarget architecture candidate) rules consumer provider := by
  have hrules : .edge true consumer provider ∈
        rules.flatMap (ruleOps (inventory (ofTarget architecture baseline) (ofTarget architecture candidate))) ↔
      RuledOn (ofTarget architecture baseline ++ ofTarget architecture candidate) rules consumer provider ∧
        (∃ entry ∈ ofTarget architecture candidate, entry.pkgbase = consumer) ∧
          ∃ entry ∈ ofTarget architecture candidate, entry.pkgbase = provider := by
    rw [← edge_mem_ruleOps, ← mem_inventory_current, ← mem_inventory_current]
    constructor
    · intro hop
      exact ⟨⟨true, hop⟩, by simpa using ruleOps_current hop⟩
    · rintro ⟨⟨current, hop⟩, hcurrent⟩
      have := ruleOps_current hop
      rw [decide_eq_true hcurrent] at this
      exact this ▸ hop
  rw [mem_dependencies, CandidateEdge, ← hrules]
  simp [Graph.empty, graphOps, basesOps, edge_mem_snapshotOps h.before, edge_mem_snapshotOps h.after]

theorem mem_currentBases_iff {baseline candidate : List Package} {rules : List RebuildRule} {x : String} :
    x ∈ (Graph.empty.runs (graphOps baseline candidate rules)).currentBases ↔ ∃ entry ∈ candidate, entry.pkgbase = x := by
  simp [mem_currentBases, base_mem_graphOps, Graph.empty]

theorem mem_edgesOf {g : Graph} {build : List String} {a b : String} :
    b ∈ edgesOf g build a ↔ b ∈ build ∧ (a, b) ∈ g.dependencies := by
  simp only [edgesOf, mem_sorted, List.mem_filter, List.mem_map, decide_eq_true_eq]
  constructor
  · rintro ⟨⟨⟨a', b'⟩, ⟨hmem, rfl⟩, rfl⟩, hb⟩
    exact ⟨hb, hmem⟩
  · exact fun ⟨hb, hmem⟩ => ⟨⟨(a, b), ⟨hmem, rfl⟩, rfl⟩, hb⟩

/-- The members that the candidate still has. -/
def Plan.current (plan : Plan) : List String := (plan.members.filter fun member => !member.removed).map (·.pkgbase)

/-- A dependency of the candidate on a current member. -/
def Needs (plan : Plan) (baseline candidate : List Package) (rules : List RebuildRule) (consumer provider : String) : Prop :=
  provider ∈ plan.current ∧ CandidateEdge baseline candidate rules consumer provider

/-- The groups of a plan are the components of the candidate's dependencies among the current
members, each after those that it depends on, and bootstrapped where it has a cycle. -/
theorem planRebuilds_groups {collate : RebuildFinding → RebuildFinding → Bool} {baseline candidate : List Package}
    {architecture : Architecture} {seeds : List String} {rules : List RebuildRule} {plan : Plan}
    (h : planRebuilds collate baseline candidate architecture seeds rules = .ok plan) :
    (∀ member ∈ plan.members, member.removed = true ↔
      ¬∃ entry ∈ ofTarget architecture candidate, entry.pkgbase = member.pkgbase) ∧
    (plan.buildGroups.flatMap (·.members)).Perm plan.current ∧ plan.current.Nodup ∧
    (∀ group ∈ plan.buildGroups, group.members ≠ [] ∧ ∀ base ∈ group.members, ∀ other, other ∈ group.members ↔
      other ∈ plan.current ∧
        Relation.ReflTransGen (Needs plan (ofTarget architecture baseline) (ofTarget architecture candidate) rules) base other ∧
        Relation.ReflTransGen (Needs plan (ofTarget architecture baseline) (ofTarget architecture candidate) rules) other base) ∧
    (plan.buildGroups.Pairwise fun earlier later => ∀ consumer ∈ earlier.members, ∀ provider ∈ later.members,
      ¬Needs plan (ofTarget architecture baseline) (ofTarget architecture candidate) rules consumer provider) ∧
    ∀ group ∈ plan.buildGroups, group.requiresBootstrapReview = true ↔ 1 < group.members.length := by
  obtain ⟨⟨-, -, hnodup⟩, haccepts, g, hg, -, -, rfl⟩ := planRebuilds_ok.mp h
  have honce : g.reverse.Nodup := by
    rw [hg]
    exact (once_empty.runs _).reverse
  have hreach := affected_reached honce hnodup
  generalize hbuild : sorted ((affected g seeds).members.filter (· ∈ g.currentBases)) = build
  have hbuildnodup : build.Nodup := by
    rw [← hbuild]
    exact (sorted_perm _).nodup_iff.mpr (hreach.members.filter _)
  have hcurrent : (assemble collate architecture seeds g).current = (sorted (affected g seeds).members).filter (· ∈ g.currentBases) := by
    simp only [Plan.current, assemble, List.filter_map, List.map_map]
    refine (List.map_id _).trans (List.filter_congr fun base _ => ?_)
    simp [planMember]
  have hperm : build.Perm (assemble collate architecture seeds g).current := by
    rw [hcurrent, ← hbuild]
    exact (sorted_perm _).trans ((sorted_perm _).symm.filter _)
  have hgroups : (assemble collate architecture seeds g).buildGroups = groupsOf (edgesOf g build) build := by
    rw [← hbuild]
    rfl
  have hnext : (fun a b => b ∈ edgesOf g build a) = Needs (assemble collate architecture seeds g)
      (ofTarget architecture baseline) (ofTarget architecture candidate) rules := by
    funext a b
    rw [Needs, mem_edgesOf, hperm.mem_iff, hg, mem_dependencies_iff haccepts]
  have hedges : ∀ a ∈ build, ∀ b ∈ edgesOf g build a, b ∈ build := fun a _ b hb => (mem_edgesOf.mp hb).1
  obtain ⟨seen, groups, heq, hgathered, hall⟩ := groupsOf_gathered hbuildnodup hedges
  have hmember (group : List String) (hgroup : group ∈ groups) (a : String) (ha : a ∈ group) : a ∈ build := by
    obtain ⟨r, -, hr⟩ := hgathered.component group hgroup
    exact ((hr a).mp ha).1
  rw [hgroups, heq]
  refine ⟨?_, ?_, ?_, ?_, ?_, ?_⟩
  · intro member hmember
    obtain ⟨base, -, rfl⟩ := List.mem_map.mp hmember
    have hbase : base ∈ g.currentBases ↔ ∃ entry ∈ ofTarget architecture candidate, entry.pkgbase = base := by
      rw [hg]
      exact mem_currentBases_iff
    refine Iff.trans ?_ (not_congr hbase)
    simp [planMember]
  · have hflat : (((groups.map buildGroup).reverse).flatMap (·.members)).Perm groups.flatten := by
      refine ((List.reverse_perm _).flatMap_right _).trans ?_
      rw [List.flatMap_map, ← List.flatMap_id']
      exact List.Perm.flatMap_left _ fun group _ => sorted_perm group
    refine hflat.trans (List.Perm.trans ?_ hperm)
    refine (List.perm_ext_iff_of_nodup hgathered.nodup hbuildnodup).mpr fun a => ⟨?_, fun ha => (hgathered.covers a).mp (hall ha)⟩
    intro ha
    obtain ⟨group, hgroup, ha⟩ := List.mem_flatten.mp ha
    exact hmember group hgroup a ha
  · exact hperm.nodup_iff.mp hbuildnodup
  · intro group' hgroup'
    obtain ⟨group, hgroup, rfl⟩ := List.mem_map.mp (List.mem_reverse.mp hgroup')
    obtain ⟨r, hr, hcomponent⟩ := hgathered.component group hgroup
    refine ⟨?_, fun base hbase other => ?_⟩
    · exact List.ne_nil_of_mem (mem_sorted.mpr hr)
    · rw [← hnext, ← hperm.mem_iff]
      simp only [buildGroup, mem_sorted] at hbase ⊢
      have hbase' := ((hcomponent base).mp hbase).2
      rw [hcomponent]
      exact and_congr_right fun _ => ⟨fun hm => hbase'.symm.trans hm, fun hm => hbase'.trans hm⟩
  · rw [← hnext]
    refine List.pairwise_reverse.mpr (List.pairwise_map.mpr (hgathered.order.imp ?_))
    intro earlier later horder consumer hconsumer provider hprovider
    exact horder provider (mem_sorted.mp hprovider) consumer (mem_sorted.mp hconsumer)
  · intro group' hgroup'
    obtain ⟨group, hgroup, rfl⟩ := List.mem_map.mp (List.mem_reverse.mp hgroup')
    simp [buildGroup, (sorted_perm group).length_eq]

/-- `cc` and `libc` need each other. -/
def cyclePackages : List Package :=
  [⟨"cc", "cc", "1-1", .x86_64, ["libc"], [], [], []⟩, ⟨"libc", "libc", "1-1", .x86_64, ["linux"], ["cc"], [], []⟩,
    ⟨"linux", "linux", "1-1", .x86_64, [], [], [], []⟩]

/-- Two bases that need each other are one group, after what they need. -/
theorem planRebuilds_cycle : ∃ plan, planRebuilds byOutput [] cyclePackages .x86_64 ["linux"] [] = .ok plan ∧
    plan.buildGroups = [⟨["linux"], false⟩, ⟨["cc", "libc"], true⟩] ∧ ["linux", "cc", "libc"].Perm plan.current := by
  have hgroups : (planRebuilds byOutput [] cyclePackages .x86_64 ["linux"] []).toOption.map Plan.buildGroups =
      some [⟨["linux"], false⟩, ⟨["cc", "libc"], true⟩] := by decide +kernel
  cases hplan : planRebuilds byOutput [] cyclePackages .x86_64 ["linux"] [] with
  | error e =>
    rw [hplan] at hgroups
    cases hgroups
  | ok plan =>
    rw [hplan] at hgroups
    have heq : plan.buildGroups = [⟨["linux"], false⟩, ⟨["cc", "libc"], true⟩] := Option.some.inj hgroups
    obtain ⟨-, hperm, -⟩ := planRebuilds_groups hplan
    rw [heq] at hperm
    exact ⟨plan, rfl, heq, hperm⟩

end Omapkg.Server.Rebuild
