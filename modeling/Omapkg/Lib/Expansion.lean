import Mathlib.Logic.Relation
import Mathlib.Data.List.Lattice
import Mathlib.Data.List.Perm.Subperm
import Mathlib.Data.List.Nodup
import Mathlib.Data.List.Chain
import Omapkg.Lib.Fallible
/-!
# Bounded expansions of a graph

A depth-first search that keeps what it found below each node and refuses a
cycle, a chain of more than `levels` nodes and a node that reaches more than
`width` nodes. It accepts exactly when none of these is below a root, in
whatever order it goes (`visitAll_ok_iff`).
-/

namespace Omapkg.Expansion

open Relation Fallible

section
variable {α : Type} {next : α → List α}

/-! ## Walks -/

/-- A walk of so many edges starts here. -/
def Walk (next : α → List α) : Nat → α → Prop
  | 0, _ => True
  | n + 1, a => ∃ b ∈ next a, Walk next n b

def Edge (next : α → List α) (a b : α) : Prop := b ∈ next a

def Reach (next : α → List α) : α → α → Prop := ReflTransGen (Edge next)

theorem Walk.succ {n : Nat} {a : α} (h : Walk next (n + 1) a) : Walk next n a := by
  induction n generalizing a with
  | zero => trivial
  | succ n ih =>
    obtain ⟨b, hb, h⟩ := h
    exact ⟨b, hb, ih h⟩

theorem Walk.mono {m n : Nat} (hmn : m ≤ n) {a : α} (h : Walk next n a) : Walk next m a := by
  induction hmn with
  | refl => exact h
  | step _ ih => exact ih h.succ

theorem Walk.of_trans {a b : α} (hab : TransGen (Edge next) a b) {n : Nat} (h : Walk next n b) :
    Walk next (n + 1) a := by
  induction hab using TransGen.head_induction_on with
  | single hab => exact ⟨b, hab, h⟩
  | head hac _ ih => exact Walk.succ ⟨_, hac, ih⟩

theorem Walk.of_reach {a b : α} (hab : Reach next a b) {n : Nat} (h : Walk next n b) : Walk next n a := by
  rcases reflTransGen_iff_eq_or_transGen.mp hab with rfl | hab
  · exact h
  · exact (Walk.of_trans hab h).succ

/-- On a cycle a walk goes on for ever. -/
theorem Walk.of_cycle {a : α} (h : TransGen (Edge next) a a) (n : Nat) : Walk next n a := by
  induction n with
  | zero => trivial
  | succ n ih => exact Walk.of_trans h ih

/-! ## Bounds -/

/-- No chain of more than `levels` nodes starts here, and no more than `width`
nodes are reached. -/
structure Within (next : α → List α) (levels width : Nat) (a : α) : Prop where
  height : ¬Walk next levels a
  width : ∀ l : List α, l.Nodup → (∀ b ∈ l, Reach next a b) → l.length ≤ width

theorem Within.of_reach {levels width : Nat} {a b : α} (h : Within next levels width a) (hab : Reach next a b) :
    Within next levels width b :=
  ⟨fun hw => h.height (hw.of_reach hab), fun l hl hr => h.width l hl fun c hc => hab.trans (hr c hc)⟩

theorem within_leaf {levels width : Nat} (hl : 1 ≤ levels) (hw : 1 ≤ width) {a : α} (ha : next a = []) :
    Within next levels width a := by
  constructor
  · intro h
    obtain ⟨b, hb, -⟩ := h.mono hl
    rw [ha] at hb
    cases hb
  · intro l hl hr
    have hall : ∀ b ∈ l, b = a := by
      intro b hb
      rcases ReflTransGen.cases_head (hr b hb) with h | ⟨c, hc, -⟩
      · exact h.symm
      · rw [Edge, ha] at hc
        cases hc
    cases l with
    | nil => exact Nat.zero_le _
    | cons b rest =>
      cases rest with
      | nil => exact hw
      | cons c rest =>
        have hbc : b = c := (hall b (by simp)).trans (hall c (by simp)).symm
        simp [hbc] at hl

theorem Walk.imp {next' : α → List α} (h : ∀ a, next' a ⊆ next a) {n : Nat} {a : α} (hw : Walk next' n a) :
    Walk next n a := by
  induction n generalizing a with
  | zero => trivial
  | succ n ih =>
    obtain ⟨b, hb, hw⟩ := hw
    exact ⟨b, h a hb, ih hw⟩

/-- Fewer edges break no bound. -/
theorem Within.mono {next' : α → List α} (h : ∀ a, next' a ⊆ next a) {levels width : Nat} {a : α}
    (hw : Within next levels width a) : Within next' levels width a := by
  have hedge : Edge next' ≤ Edge next := fun c d hcd => h c hcd
  have hreach : ∀ b, Reach next' a b → Reach next a b := ReflTransGen.mono hedge a
  exact ⟨fun hwalk => hw.height (hwalk.imp h), fun l hl hr => hw.width l hl fun b hb => hreach b (hr b hb)⟩

/-- No cycle, no chain of more than `levels` nodes, and no node that reaches
more than `width` nodes, itself included. -/
structure Bounded (next : α → List α) (levels width : Nat) : Prop where
  acyclic : ∀ a, ¬TransGen (Edge next) a a
  levels : ∀ l : List α, l.IsChain (Edge next) → l.length ≤ levels
  width : ∀ (a : α) (l : List α), l.Nodup → (∀ b ∈ l, Reach next a b) → l.length ≤ width

theorem Walk.of_chain {a : α} {l : List α} (h : (a :: l).IsChain (Edge next)) : Walk next l.length a := by
  induction l generalizing a with
  | nil => trivial
  | cons b l ih =>
    rw [List.isChain_cons_cons] at h
    exact ⟨b, h.1, ih h.2⟩

theorem Walk.exists_chain {n : Nat} {a : α} (h : Walk next n a) :
    ∃ l, l.length = n ∧ (a :: l).IsChain (Edge next) := by
  induction n generalizing a with
  | zero => exact ⟨[], rfl, List.isChain_singleton a⟩
  | succ n ih =>
    obtain ⟨b, hb, h⟩ := h
    obtain ⟨l, hl, hchain⟩ := ih h
    exact ⟨b :: l, by rw [List.length_cons, hl], List.isChain_cons_cons.mpr ⟨hb, hchain⟩⟩

theorem bounded_iff {levels width : Nat} : Bounded next levels width ↔ ∀ a, Within next levels width a := by
  constructor
  · intro h a
    refine ⟨fun hwalk => ?_, h.width a⟩
    obtain ⟨l, hl, hchain⟩ := hwalk.exists_chain
    have hlevels := h.levels (a :: l) hchain
    rw [List.length_cons] at hlevels
    omega
  · intro h
    refine ⟨fun a hcycle => (h a).height (Walk.of_cycle hcycle levels), fun l hchain => ?_, fun a => (h a).width⟩
    cases l with
    | nil => exact Nat.zero_le _
    | cons a l =>
      by_contra hlong
      rw [List.length_cons] at hlong
      exact (h a).height ((Walk.of_chain hchain).mono (by omega))

theorem Bounded.mono {next' : α → List α} (h : ∀ a, next' a ⊆ next a) {levels width : Nat}
    (hb : Bounded next levels width) : Bounded next' levels width :=
  bounded_iff.mpr fun a => (bounded_iff.mp hb a).mono h

theorem bounded_nil {levels width : Nat} (hl : 1 ≤ levels) (hw : 1 ≤ width) :
    Bounded (fun _ : α => []) levels width := bounded_iff.mpr fun _ => within_leaf hl hw rfl

/-! ## The search -/

/-- What is below a node, itself included. -/
structure Expanded (α : Type) where
  depth : Nat
  nodes : List α

variable [DecidableEq α] {ε : Type} (levels width : Nat) (cycle excess : ε)

def Expanded.add (result subtree : Expanded α) : Expanded α :=
  ⟨max result.depth (subtree.depth + 1), subtree.nodes ∪ result.nodes⟩

def expandChildren (visitChild : α → List (α × Expanded α) → Except ε (Expanded α × List (α × Expanded α))) :
    List α → Expanded α → List (α × Expanded α) → Except ε (Expanded α × List (α × Expanded α))
  | [], result, memo => .ok (result, memo)
  | child :: rest, result, memo => do
    let found ← visitChild child memo
    if (result.add found.1).depth > levels ∨ (result.add found.1).nodes.length > width then .error excess
    else expandChildren visitChild rest (result.add found.1) found.2

/-- `room` is how many more nodes the path may take. -/
def visit (next : α → List α) : Nat → List α → α → List (α × Expanded α) →
    Except ε (Expanded α × List (α × Expanded α))
  | 0, path, node, _ => if node ∈ path then .error cycle else .error excess
  | room + 1, path, node, memo =>
    if node ∈ path then .error cycle
    else
      match memo.lookup node with
      | some cached => .ok (cached, memo)
      | none => do
        let found ← expandChildren levels width excess (visit next room (node :: path)) (next node) ⟨1, [node]⟩ memo
        .ok (found.1, (node, found.1) :: found.2)

def visitAll (next : α → List α) : List α → List (α × Expanded α) → Except ε (List (α × Expanded α))
  | [], memo => .ok memo
  | root :: rest, memo => do
    let found ← visit levels width cycle excess next levels [] root memo
    visitAll next rest found.2

/-! ## What the search keeps -/

/-- What was found is what is below the node. -/
structure Exact (next : α → List α) (levels width : Nat) (a : α) (e : Expanded α) : Prop where
  depth : ∃ d, e.depth = d + 1 ∧ Walk next d a ∧ ¬Walk next (d + 1) a
  nodup : e.nodes.Nodup
  nodes : ∀ b, b ∈ e.nodes ↔ Reach next a b
  low : e.depth ≤ levels
  narrow : e.nodes.length ≤ width

/-- The same with some of the children so far. -/
structure Partly (next : α → List α) (a : α) (done : List α) (e : Expanded α) : Prop where
  depth : ∃ d, e.depth = d + 1 ∧ (d = 0 ∨ ∃ b ∈ done, ∃ k, d = k + 1 ∧ Walk next k b) ∧ ∀ b ∈ done, ¬Walk next d b
  nodup : e.nodes.Nodup
  nodes : ∀ b, b ∈ e.nodes ↔ b = a ∨ ∃ c ∈ done, Reach next c b

variable {levels width cycle excess}

omit [DecidableEq α] in
theorem Exact.within {a : α} {e : Expanded α} (h : Exact next levels width a e) : Within next levels width a := by
  obtain ⟨d, hd, -, hlow⟩ := h.depth
  constructor
  · exact fun hw => hlow (hw.mono (by have := h.low; omega))
  · intro l hl hr
    have hsub : l ⊆ e.nodes := fun b hb => (h.nodes b).mpr (hr b hb)
    exact (hl.subperm hsub).length_le.trans h.narrow

omit [DecidableEq α] in
theorem partly_start (a : α) : Partly next a [] ⟨1, [a]⟩ :=
  ⟨⟨0, rfl, .inl rfl, by simp⟩, by simp, by simp⟩

theorem Partly.add {a b : α} {done : List α} {e f : Expanded α} (h : Partly next a done e)
    (hb : Exact next levels width b f) : Partly next a (done ++ [b]) (e.add f) := by
  obtain ⟨d, hd, hwalk, hlow⟩ := h.depth
  obtain ⟨k, hk, hwalkb, hlowb⟩ := hb.depth
  refine ⟨⟨max d (k + 1), ?_, ?_, ?_⟩, ?_, ?_⟩
  · simp only [Expanded.add, hd, hk]
    omega
  · right
    by_cases hdk : d ≤ k + 1
    · exact ⟨b, by simp, k, by omega, hwalkb⟩
    · rcases hwalk with rfl | ⟨c, hc, m, hm, hwalk⟩
      · omega
      · exact ⟨c, by simp [hc], m, by omega, hwalk⟩
  · intro c hc hw
    rcases List.mem_append.mp hc with hc | hc
    · exact hlow c hc (hw.mono (by omega))
    · rw [List.mem_singleton] at hc
      subst hc
      exact hlowb (hw.mono (by omega))
  · exact h.nodup.union _
  · intro x
    simp only [Expanded.add, List.mem_union_iff, hb.nodes, h.nodes, List.mem_append, List.mem_singleton]
    constructor
    · rintro (hx | rfl | ⟨c, hc, hx⟩)
      · exact .inr ⟨b, .inr rfl, hx⟩
      · exact .inl rfl
      · exact .inr ⟨c, .inl hc, hx⟩
    · rintro (rfl | ⟨c, hc | rfl, hx⟩)
      · exact .inr (.inl rfl)
      · exact .inr (.inr ⟨c, hc, hx⟩)
      · exact .inl hx

omit [DecidableEq α] in
theorem Partly.not_within {a : α} {done : List α} {e : Expanded α} (h : Partly next a done e)
    (hdone : ∀ b ∈ done, b ∈ next a) (hexcess : e.depth > levels ∨ e.nodes.length > width) :
    ¬Within next levels width a := by
  intro hwithin
  rcases hexcess with hdeep | hwide
  · obtain ⟨d, hd, hwalk, -⟩ := h.depth
    have ha : Walk next d a := by
      rcases hwalk with rfl | ⟨b, hb, k, rfl, hwalk⟩
      · trivial
      · exact ⟨b, hdone b hb, hwalk⟩
    exact hwithin.height (ha.mono (by omega))
  · have hreach : ∀ b ∈ e.nodes, Reach next a b := by
      intro b hb
      rcases (h.nodes b).mp hb with rfl | ⟨c, hc, hcb⟩
      · exact .refl
      · exact .head (hdone c hc) hcb
    have := hwithin.width e.nodes h.nodup hreach
    omega

omit [DecidableEq α] in
theorem Partly.exact {a : α} {e : Expanded α} (h : Partly next a (next a) e) (hlow : e.depth ≤ levels)
    (hnarrow : e.nodes.length ≤ width) : Exact next levels width a e := by
  obtain ⟨d, hd, hwalk, hchildren⟩ := h.depth
  refine ⟨⟨d, hd, ?_, ?_⟩, h.nodup, ?_, hlow, hnarrow⟩
  · rcases hwalk with rfl | ⟨b, hb, k, rfl, hwalk⟩
    · trivial
    · exact ⟨b, hb, hwalk⟩
  · rintro ⟨b, hb, hw⟩
    exact hchildren b hb hw
  · intro b
    rw [h.nodes]
    constructor
    · rintro (rfl | ⟨c, hc, hcb⟩)
      · exact .refl
      · exact .head hc hcb
    · intro hab
      rcases ReflTransGen.cases_head hab with rfl | ⟨c, hc, hcb⟩
      · exact .inl rfl
      · exact .inr ⟨c, hc, hcb⟩

/-- The nodes above, from the parent to the root. -/
def Above (next : α → List α) : List α → α → Prop
  | [], _ => True
  | parent :: path, node => node ∈ next parent ∧ Above next path parent

def rootOf : List α → α → α
  | [], node => node
  | parent :: path, _ => rootOf path parent

omit [DecidableEq α] in
theorem Above.reach {path : List α} {node : α} (h : Above next path node) : Reach next (rootOf path node) node := by
  induction path generalizing node with
  | nil => exact .refl
  | cons parent path ih => exact (ih h.2).tail h.1

omit [DecidableEq α] in
theorem Above.walk {path : List α} {node : α} (h : Above next path node) {n : Nat} (hw : Walk next n node) :
    Walk next (n + path.length) (rootOf path node) := by
  induction path generalizing node n with
  | nil => exact hw
  | cons parent path ih =>
    have hwalk : Walk next (n + 1) parent := ⟨node, h.1, hw⟩
    have hparent := ih h.2 hwalk
    rw [List.length_cons, Nat.add_comm path.length 1, ← Nat.add_assoc]
    exact hparent

omit [DecidableEq α] in
theorem Above.trans {path : List α} {node b : α} (h : Above next path node) (hb : b ∈ path) :
    TransGen (Edge next) b node := by
  induction path generalizing node with
  | nil => cases hb
  | cons parent path ih =>
    rcases List.mem_cons.mp hb with rfl | hb
    · exact .single h.1
    · exact (ih h.2 hb).tail h.1

def MemoOk (next : α → List α) (levels width : Nat) (memo : List (α × Expanded α)) : Prop :=
  ∀ a e, memo.lookup a = some e → Exact next levels width a e

/-- What a visit answers: what is below the node, or that the root breaks a bound. -/
structure Answers (next : α → List α) (levels width : Nat) (root a : α)
    (answer : Except ε (Expanded α × List (α × Expanded α))) : Prop where
  ok : ∀ found, answer = .ok found → Exact next levels width a found.1 ∧ MemoOk next levels width found.2
  error : ∀ e, answer = .error e → ¬Within next levels width root

theorem expandChildren_answers (excess : ε) {visitChild : α → List (α × Expanded α) → Except ε (Expanded α × List (α × Expanded α))}
    {root a : α} (hroot : Reach next root a)
    (hvisit : ∀ b ∈ next a, ∀ memo, MemoOk next levels width memo →
      Answers next levels width root b (visitChild b memo)) {done rest : List α} (hsplit : next a = done ++ rest)
    {result : Expanded α} (hresult : Partly next a done result)
    (hlow : result.depth ≤ levels) (hnarrow : result.nodes.length ≤ width)
    {memo : List (α × Expanded α)} (hmemo : MemoOk next levels width memo) :
    Answers next levels width root a (expandChildren levels width excess visitChild rest result memo) := by
  induction rest generalizing done result memo with
  | nil =>
    rw [List.append_nil] at hsplit
    constructor
    · intro found hfound
      cases hfound
      exact ⟨(hsplit ▸ hresult).exact hlow hnarrow, hmemo⟩
    · intro e he
      cases he
  | cons child rest ih =>
    have hchild : child ∈ next a := by rw [hsplit]; simp
    obtain ⟨hok, herror⟩ := hvisit child hchild memo hmemo
    cases hanswer : visitChild child memo with
    | error e =>
      constructor
      · intro found hfound
        simp [expandChildren, hanswer, bind, Except.bind] at hfound
      · exact fun _ _ => herror e hanswer
    | ok found =>
      obtain ⟨hexact, hmemo'⟩ := hok found hanswer
      have hadd := hresult.add hexact
      have hdone : ∀ b ∈ done ++ [child], b ∈ next a := by
        intro b hb
        rw [hsplit]
        rcases List.mem_append.mp hb with hb | hb
        · exact List.mem_append_left _ hb
        · rw [List.mem_singleton] at hb
          subst hb
          simp
      by_cases hexcess : (result.add found.1).depth > levels ∨ (result.add found.1).nodes.length > width
      · have hstep : expandChildren levels width excess visitChild (child :: rest) result memo = .error excess := by
          simp [expandChildren, hanswer, bind, Except.bind, hexcess]
        constructor
        · intro found' hfound
          rw [hstep] at hfound
          cases hfound
        · exact fun _ _ hwithin => hadd.not_within hdone hexcess (hwithin.of_reach hroot)
      · have hstep : expandChildren levels width excess visitChild (child :: rest) result memo =
            expandChildren levels width excess visitChild rest (result.add found.1) found.2 := by
          simp only [expandChildren, hanswer, bind, Except.bind, if_neg hexcess]
        rw [hstep]
        exact ih (by rw [hsplit]; simp) hadd (by omega) (by omega) hmemo'

theorem visit_answers (cycle excess : ε) (hwidth : 1 ≤ width) {room : Nat} {path : List α} {node : α} (habove : Above next path node)
    (hroom : room + path.length = levels) {memo : List (α × Expanded α)} (hmemo : MemoOk next levels width memo) :
    Answers next levels width (rootOf path node) node (visit levels width cycle excess next room path node memo) := by
  have hcycle : node ∈ path → ¬Within next levels width (rootOf path node) := by
    intro hmem hwithin
    have hnode := hwithin.of_reach habove.reach
    exact hnode.height (Walk.of_cycle (habove.trans hmem) levels)
  induction room generalizing path node memo with
  | zero =>
    have hlong : ¬Within next levels width (rootOf path node) := by
      intro hwithin
      apply hwithin.height
      rw [← hroom]
      exact habove.walk trivial
    constructor
    · intro found hfound
      rw [visit] at hfound
      split_ifs at hfound
    · exact fun _ _ => hlong
  | succ room ih =>
    by_cases hmem : node ∈ path
    · constructor
      · intro found hfound
        rw [visit, if_pos hmem] at hfound
        cases hfound
      · exact fun _ _ => hcycle hmem
    · cases hlookup : memo.lookup node with
      | some cached =>
        have hstep : visit levels width cycle excess next (room + 1) path node memo = .ok (cached, memo) := by
          rw [visit, if_neg hmem, hlookup]
        rw [hstep]
        constructor
        · intro found hfound
          cases hfound
          exact ⟨hmemo node cached hlookup, hmemo⟩
        · intro e he
          cases he
      | none =>
        have hchildren : ∀ b ∈ next node, ∀ memo, MemoOk next levels width memo →
            Answers next levels width (rootOf path node) b
              (visit levels width cycle excess next room (node :: path) b memo) := by
          intro b hb memo' hmemo'
          have habove' : Above next (node :: path) b := ⟨hb, habove⟩
          refine ih habove' (by rw [List.length_cons]; omega) hmemo' ?_
          intro hbmem hwithin
          have hnode := hwithin.of_reach habove'.reach
          exact hnode.height (Walk.of_cycle (habove'.trans hbmem) levels)
        have hlevels : 1 ≤ levels := by omega
        have hall := expandChildren_answers excess habove.reach hchildren (List.nil_append _).symm
          (partly_start node) hlevels hwidth hmemo
        have hstep : visit levels width cycle excess next (room + 1) path node memo =
            (expandChildren levels width excess (visit levels width cycle excess next room (node :: path)) (next node)
              ⟨1, [node]⟩ memo >>= fun found => .ok (found.1, (node, found.1) :: found.2)) := by
          rw [visit, if_neg hmem, hlookup]
        rw [hstep]
        constructor
        · intro found hfound
          obtain ⟨below, hbelow, hfound⟩ := bind_ok.mp hfound
          cases hfound
          obtain ⟨hexact, hmemo'⟩ := hall.ok below hbelow
          refine ⟨hexact, ?_⟩
          intro a e he
          rw [List.lookup_cons] at he
          by_cases ha : a = node
          · subst ha
            simp only [beq_self_eq_true] at he
            cases he
            exact hexact
          · simp only [beq_eq_false_iff_ne.mpr ha] at he
            exact hmemo' a e he
        · intro e he
          cases hanswer : expandChildren levels width excess
              (visit levels width cycle excess next room (node :: path)) (next node) ⟨1, [node]⟩ memo with
          | error e' => exact hall.error e' hanswer
          | ok found =>
            rw [hanswer] at he
            cases he

/-- The search accepts exactly the roots that keep to the bounds, whatever the
order of the roots and of what follows each node. -/
theorem visitAll_ok_iff (hwidth : 1 ≤ width) (roots : List α) :
    (∃ memo, visitAll levels width cycle excess next roots [] = .ok memo) ↔ ∀ root ∈ roots, Within next levels width root := by
  have hgeneral : ∀ memo, MemoOk next levels width memo →
      ((∃ memo', visitAll levels width cycle excess next roots memo = .ok memo') ↔
        ∀ root ∈ roots, Within next levels width root) := by
    induction roots with
    | nil => simp [visitAll]
    | cons root rest ih =>
      intro memo hmemo
      have habove : Above next [] root := trivial
      have hvisit := visit_answers cycle excess hwidth habove (Nat.add_zero levels) hmemo
      cases hanswer : visit levels width cycle excess next levels [] root memo with
      | error e =>
        have hnot := hvisit.error e hanswer
        constructor
        · rintro ⟨memo', hmemo'⟩
          simp [visitAll, hanswer, bind, Except.bind] at hmemo'
        · exact fun h => absurd (h root List.mem_cons_self) hnot
      | ok found =>
        obtain ⟨hexact, hmemo'⟩ := hvisit.ok found hanswer
        have hstep : visitAll levels width cycle excess next (root :: rest) memo =
            visitAll levels width cycle excess next rest found.2 := by
          simp only [visitAll, hanswer, bind, Except.bind]
        rw [hstep, ih found.2 hmemo', List.forall_mem_cons]
        exact ⟨fun h => ⟨hexact.within, h⟩, fun h => h.2⟩
  exact hgeneral [] fun a e he => by simp at he

end

end Omapkg.Expansion
