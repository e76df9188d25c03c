import Omapkg.Server.DependencyGraph
/-!
# The bounds of the dependency graph

A check accepts exactly the links that keep the graph acyclic and within its
bounds, and no state that the calls reach, in any order of their steps, has a
graph outside them.
-/

namespace Omapkg.Server.Dependency

open Prog Expansion

/-! ## The graph -/

/-- The requests that the open blockers of a request are linked to. -/
def linkedTo (blockers : List DependencyBlocker) (node : String) : List String :=
  (blockers.filter fun b => b.status = .open && b.requestId = node).filterMap (·.dependencyRequestId)

/-- The graph with links in place of those of the same blockers. -/
def replaced (links : List DependencyLink) (db : DependencyDb) (node : String) : List String :=
  linkedTo (db.blockers.filter fun b => ¬(links.map (·.blockerId)).contains b.id) node ++
    (links.filter (·.parent = node)).map (·.child)

/-- An open blocker of `parent` is linked to `child`. -/
def Linked (db : DependencyDb) (id parent child : String) : Prop :=
  ∃ b ∈ db.blockers, b.status = .open ∧ b.id = id ∧ b.requestId = parent ∧ b.dependencyRequestId = some child

section
variable {db : DependencyDb} {links : List DependencyLink} {parent child : String}

theorem mem_linkedTo {blockers : List DependencyBlocker} :
    child ∈ linkedTo blockers parent ↔
      ∃ b ∈ blockers, b.status = .open ∧ b.requestId = parent ∧ b.dependencyRequestId = some child := by
  simp [linkedTo, and_assoc]

theorem mem_graph : child ∈ linkedTo db.blockers parent ↔ ∃ id, Linked db id parent child := by
  rw [mem_linkedTo]
  constructor
  · rintro ⟨b, hb, hopen, hparent, hchild⟩
    exact ⟨b.id, b, hb, hopen, rfl, hparent, hchild⟩
  · rintro ⟨id, b, hb, hopen, -, hparent, hchild⟩
    exact ⟨b, hb, hopen, hparent, hchild⟩

theorem mem_replaced :
    child ∈ replaced links db parent ↔
      (∃ id, Linked db id parent child ∧ id ∉ links.map (·.blockerId)) ∨
        ∃ link ∈ links, link.parent = parent ∧ link.child = child := by
  rw [replaced, List.mem_append, mem_linkedTo]
  apply or_congr
  · constructor
    · rintro ⟨b, hb, hopen, hparent, hchild⟩
      obtain ⟨hb, hkept⟩ := List.mem_filter.mp hb
      exact ⟨b.id, ⟨b, hb, hopen, rfl, hparent, hchild⟩, by simpa using hkept⟩
    · rintro ⟨id, ⟨b, hb, hopen, rfl, hparent, hchild⟩, hkept⟩
      exact ⟨b, List.mem_filter.mpr ⟨hb, by simpa using hkept⟩, hopen, hparent, hchild⟩
  · simp [and_assoc]

theorem mem_otherEdges :
    (parent, child) ∈ otherEdges links db ↔ ∃ id, Linked db id parent child ∧ id ∉ links.map (·.blockerId) := by
  rw [otherEdges, List.mem_eraseDups, List.mem_filterMap]
  constructor
  · rintro ⟨b, hb, hedge⟩
    obtain ⟨hb, hkept⟩ := List.mem_filter.mp hb
    rw [Bool.and_eq_true] at hkept
    obtain ⟨c, hc, hpair⟩ := Option.map_eq_some_iff.mp hedge
    cases hpair
    exact ⟨b.id, ⟨b, hb, by simpa using hkept.1, rfl, rfl, hc⟩, by simpa using hkept.2⟩
  · rintro ⟨id, ⟨b, hb, hopen, rfl, rfl, hchild⟩, hkept⟩
    refine ⟨b, List.mem_filter.mpr ⟨hb, ?_⟩, by rw [hchild]; rfl⟩
    rw [Bool.and_eq_true]
    exact ⟨by simpa using hopen, by simpa using hkept⟩

theorem mem_childrenOf {edges : List (String × String)} : child ∈ childrenOf edges parent ↔ (parent, child) ∈ edges := by
  simp [childrenOf, List.mem_eraseDups]

/-! ## What a check accepts -/

theorem checkExpansions_ok {edges : List (String × String)} :
    checkExpansions edges = .ok () ↔ Bounded (childrenOf edges) 8 64 := by
  have hroots : (∀ root ∈ (edges.map (·.1)).eraseDups, Within (childrenOf edges) 8 64 root) ↔
      Bounded (childrenOf edges) 8 64 := by
    rw [bounded_iff]
    refine ⟨fun h a => ?_, fun h root _ => h root⟩
    by_cases ha : a ∈ edges.map (·.1)
    · exact h a (List.mem_eraseDups.mpr ha)
    · -- a node that is no root has no children
      apply within_leaf (by omega) (by omega)
      rw [List.eq_nil_iff_forall_not_mem]
      intro b hb
      exact ha (List.mem_map.mpr ⟨(a, b), mem_childrenOf.mp hb, rfl⟩)
  have hvisit : (∃ memo, visitAll 8 64 cycleDetected expansionExceeded (childrenOf edges)
      (edges.map (·.1)).eraseDups [] = .ok memo) ↔
        ∀ root ∈ (edges.map (·.1)).eraseDups, Within (childrenOf edges) 8 64 root := visitAll_ok_iff (by omega) _
  rw [← hroots, ← hvisit, checkExpansions]
  simp only [Fallible.bind_ok, and_true]

theorem checkEdges_ok {order : RowOrder (String × String)} (hlinks : links ≠ []) :
    checkEdges order links db = .ok () ↔
      Bounded (replaced links db) 8 64 ∧ (otherEdges links db).length + links.length ≤ 4096 := by
  have hone : 0 < links.length := List.length_pos_of_ne_nil hlinks
  have hlength : (order.rows (otherEdges links db)).length = (otherEdges links db).length := (order.perm _).length_eq
  rw [checkEdges]
  by_cases hbudget : (otherEdges links db).length + links.length ≤ 4096
  · have hall : (order.rows (otherEdges links db)).take 4097 = order.rows (otherEdges links db) :=
      List.take_of_length_le (by omega)
    have hedges : ∀ a c, c ∈ childrenOf (order.rows (otherEdges links db) ++
        links.map fun link => (link.parent, link.child)) a ↔ c ∈ replaced links db a := by
      intro a c
      rw [mem_childrenOf, List.mem_append, (order.perm _).mem_iff, mem_otherEdges, mem_replaced]
      simp
    rw [hall, if_neg (by simp only [List.length_append, List.length_map]; omega), checkExpansions_ok]
    constructor
    · exact fun h => ⟨h.mono fun a c hc => (hedges a c).mpr hc, hbudget⟩
    · exact fun h => h.1.mono fun a c hc => (hedges a c).mp hc
  · rw [if_pos (by simp only [List.length_append, List.length_map, List.length_take]; omega)]
    constructor
    · intro h
      cases h
    · exact fun h => absurd h.2 hbudget

theorem bounded_no_loop (hb : Bounded (replaced links db) 8 64) :
    links.any (fun link => link.parent = link.child) = false := by
  rw [List.any_eq_false]
  intro link hlink hloop
  have hchild : link.child ∈ replaced links db link.parent := mem_replaced.mpr (.inr ⟨link, hlink, rfl, rfl⟩)
  rw [← of_decide_eq_true hloop] at hchild
  exact hb.acyclic link.parent (.single hchild)

theorem checkDependencyLinks_run {order : RowOrder (String × String)} (hlinks : links ≠ []) (hmost : links.length ≤ 64) :
    ((checkDependencyLinks order links).run db).1 = .ok db.version ↔
      Bounded (replaced links db) 8 64 ∧ (otherEdges links db).length + links.length ≤ 4096 := by
  have hfit : ¬(links = [] ∨ links.length > 64) := by
    rintro (h | h)
    · exact hlinks h
    · omega
  rw [checkDependencyLinks, if_neg hfit]
  cases hloop : links.any (fun link => link.parent = link.child) with
  | true =>
    rw [if_pos rfl]
    constructor
    · intro h
      cases h
    · intro h
      rw [bounded_no_loop h.1] at hloop
      cases hloop
  | false =>
    rw [if_neg Bool.false_ne_true, run_read_bind, run_read_bind, ← checkEdges_ok hlinks]
    cases checkEdges order links db with
    | error e =>
      constructor
      · intro h
        cases h
      · intro h
        cases h
    | ok checked => exact ⟨fun _ => rfl, fun _ => rfl⟩

theorem checkDependencyLinks_answer {order : RowOrder (String × String)} :
    (∃ e, ((checkDependencyLinks order links).run db).1 = .error e) ↔
      ¬((checkDependencyLinks order links).run db).1 = .ok db.version := by
  rw [checkDependencyLinks]
  split
  · exact ⟨fun _ h => (nomatch h), fun _ => ⟨_, rfl⟩⟩
  · split
    · exact ⟨fun _ h => (nomatch h), fun _ => ⟨_, rfl⟩⟩
    · rw [run_read_bind, run_read_bind]
      cases checkEdges order links db with
      | error e => exact ⟨fun _ h => (nomatch h), fun _ => ⟨e, rfl⟩⟩
      | ok checked =>
        constructor
        · rintro ⟨e, h⟩
          cases h
        · exact fun h => absurd rfl h

end

/-! ## The invariant -/

/-- What holds of the tables in every state. -/
structure Sound (db : DependencyDb) : Prop where
  ids : (db.blockers.map (·.id)).Nodup
  bounded : Bounded (linkedTo db.blockers) 8 64

/-- What every step keeps: whose a blocker is, and the links of a version. -/
structure Grows (s s' : DependencyDb) : Prop where
  owners : ∀ b ∈ s.blockers, ∃ b' ∈ s'.blockers, b'.id = b.id ∧ b'.requestId = b.requestId
  version : s.version ≤ s'.version
  linked : s.version = s'.version → ∀ id parent child, Linked s id parent child ↔ Linked s' id parent child

/-- A blocker is of a request. -/
def Owned (db : DependencyDb) (id requestId : String) : Prop := ∃ b ∈ db.blockers, b.id = id ∧ b.requestId = requestId

/-- What a check of a version says as long as the version is the same. -/
structure Checked (links : List DependencyLink) (version : Nat) (db : DependencyDb) : Prop where
  seen : version ≤ db.version
  bounded : db.version = version → Bounded (replaced links db) 8 64

/-- The blockers and the version are the same. -/
structure SameGraph (s s' : DependencyDb) : Prop where
  blockers : s'.blockers = s.blockers
  version : s'.version = s.version

/-- The open blockers of the ids wait for a child, and the version tells. -/
structure Relinked (child : String) (ids : List String) (s s' : DependencyDb) : Prop where
  blockers : s'.blockers = s.blockers.map fun b => if b.id ∈ ids then { b with dependencyRequestId := some child } else b
  version : s.version + ids.length ≤ s'.version

instance : Std.Refl Grows :=
  ⟨fun s => ⟨fun b hb => ⟨b, hb, rfl, rfl⟩, Nat.le_refl s.version, fun _ _ _ _ => Iff.rfl⟩⟩

theorem Grows.trans {s s' s'' : DependencyDb} (h : Grows s s') (h' : Grows s' s'') : Grows s s'' where
  owners b hb := by
    obtain ⟨b', hb', hid, hrequest⟩ := h.owners b hb
    obtain ⟨b'', hb'', hid', hrequest'⟩ := h'.owners b' hb'
    exact ⟨b'', hb'', hid'.trans hid, hrequest'.trans hrequest⟩
  version := Nat.le_trans h.version h'.version
  linked heq id parent child := by
    have hfirst := h.version
    have hsecond := h'.version
    exact (h.linked (by omega) id parent child).trans (h'.linked (by omega) id parent child)

instance : IsTrans DependencyDb Grows := ⟨fun _ _ _ => Grows.trans⟩

section
variable {s s' s'' : DependencyDb} {links : List DependencyLink} {child : String} {ids : List String}

theorem Owned.grows {id requestId : String} (h : Owned s id requestId) (hs : Grows s s') : Owned s' id requestId := by
  obtain ⟨b, hb, rfl, rfl⟩ := h
  exact hs.owners b hb

theorem Checked.grows {version : Nat} (h : Checked links version s) (hs : Grows s s') : Checked links version s' := by
  have hle := h.seen
  have hle' := hs.version
  refine ⟨by omega, fun heq => ?_⟩
  have hsame := hs.linked (by omega)
  refine (h.bounded (by omega)).mono fun a c hc => ?_
  rw [mem_replaced] at hc ⊢
  simpa only [hsame] using hc

theorem SameGraph.grows (h : SameGraph s s') : Grows s s' := by
  refine ⟨fun b hb => ⟨b, by rwa [h.blockers], rfl, rfl⟩, h.version.ge, fun _ id parent child => ?_⟩
  rw [Linked, Linked, h.blockers]

theorem SameGraph.sound (h : SameGraph s s') (hi : Sound s) : Sound s' := by
  refine ⟨?_, ?_⟩
  · rw [h.blockers]
    exact hi.ids
  · rw [h.blockers]
    exact hi.bounded

instance : Std.Refl SameGraph := ⟨fun _ => ⟨rfl, rfl⟩⟩

instance : IsTrans DependencyDb SameGraph :=
  ⟨fun _ _ _ h h' => ⟨h'.blockers.trans h.blockers, h'.version.trans h.version⟩⟩

/-! ### Updates of blockers -/

section
variable {p : DependencyBlocker → Bool} {f : DependencyBlocker → DependencyBlocker}

/-- A version that stays says that the rows that changed were no links. -/
theorem updateBlockers_grows (hid : ∀ b, (f b).id = b.id) (hrequest : ∀ b, (f b).requestId = b.requestId) :
    Grows s (updateBlockers p f s).1 where
  owners b hb := by
    refine ⟨if p b then f b else b, List.mem_map.mpr ⟨b, hb, rfl⟩, ?_, ?_⟩
    · split
      · exact hid b
      · rfl
    · split
      · exact hrequest b
      · rfl
  version := Nat.le_add_right _ _
  linked heq id parent child := by
    have hnone : s.blockers.countP (fun b => p b && (b.dependencyRequestId.isSome || (f b).dependencyRequestId.isSome)) = 0 := by
      simp only [updateBlockers] at heq
      omega
    have hunlinked : ∀ b ∈ s.blockers, p b = true → b.dependencyRequestId = none ∧ (f b).dependencyRequestId = none := by
      intro b hb hp
      have h := List.countP_eq_zero.mp hnone b hb
      simpa [hp] using h
    constructor
    · rintro ⟨b, hb, hopen, hbid, hparent, hchild⟩
      have hp : p b = false := by
        by_contra hp
        have hlost := (hunlinked b hb (by simpa using hp)).1
        rw [hchild] at hlost
        cases hlost
      exact ⟨b, List.mem_map.mpr ⟨b, hb, by rw [hp]; rfl⟩, hopen, hbid, hparent, hchild⟩
    · rintro ⟨b', hb', hopen, hbid, hparent, hchild⟩
      obtain ⟨b, hb, rfl⟩ := List.mem_map.mp hb'
      cases hp : p b with
      | true =>
        rw [hp, if_pos rfl, (hunlinked b hb hp).2] at hchild
        cases hchild
      | false =>
        simp only [hp, Bool.false_eq_true, if_false] at hopen hbid hparent hchild
        exact ⟨b, hb, hopen, hbid, hparent, hchild⟩

theorem updateBlockers_ids (hid : ∀ b, (f b).id = b.id) :
    (updateBlockers p f s).1.blockers.map (·.id) = s.blockers.map (·.id) := Sql.map_update (fun b _ => hid b) _

/-- A blocker that is no longer open is no link. -/
theorem closeBlockers_sound (hid : ∀ b, (f b).id = b.id) (hclose : ∀ b, (f b).status ≠ .open) (hi : Sound s) :
    Sound (updateBlockers p f s).1 := by
  refine ⟨by rw [updateBlockers_ids hid]; exact hi.ids, hi.bounded.mono fun a c hc => ?_⟩
  rw [mem_linkedTo] at hc ⊢
  obtain ⟨b', hb', hopen, hparent, hchild⟩ := hc
  obtain ⟨b, hb, rfl⟩ := List.mem_map.mp hb'
  cases hp : p b with
  | true =>
    rw [hp, if_pos rfl] at hopen
    exact absurd hopen (hclose b)
  | false =>
    simp only [hp, Bool.false_eq_true, if_false] at hopen hparent hchild
    exact ⟨b, hb, hopen, hparent, hchild⟩

end

/-! ### Links -/

theorem Relinked.sameIds (h : Relinked child ids s s') : s'.blockers.map (·.id) = s.blockers.map (·.id) := by
  rw [h.blockers, List.map_map]
  apply List.map_congr_left
  intro b _
  simp only [Function.comp_apply]
  split <;> rfl

theorem Relinked.grows (h : Relinked child ids s s') (hids : ids ≠ []) : Grows s s' where
  owners b hb := by
    refine ⟨if b.id ∈ ids then { b with dependencyRequestId := some child } else b, ?_, ?_, ?_⟩
    · rw [h.blockers]
      exact List.mem_map.mpr ⟨b, hb, rfl⟩
    · split <;> rfl
    · split <;> rfl
  version := by
    have := h.version
    omega
  linked heq := by
    have hlength := List.length_pos_of_ne_nil hids
    have := h.version
    omega

/-- What is linked as it was checked is within the bounds. -/
theorem Relinked.sound (h : Relinked child (links.map (·.blockerId)) s s') (hi : Sound s)
    (hchild : ∀ link ∈ links, link.child = child) (howned : ∀ link ∈ links, Owned s link.blockerId link.parent)
    (hb : Bounded (replaced links s) 8 64) : Sound s' := by
  constructor
  · rw [h.sameIds]
    exact hi.ids
  · refine hb.mono fun a c hc => ?_
    rw [mem_linkedTo, h.blockers] at hc
    obtain ⟨b', hb', hopen, hparent, hc⟩ := hc
    obtain ⟨b, hb, rfl⟩ := List.mem_map.mp hb'
    rw [mem_replaced]
    by_cases hlinked : b.id ∈ links.map (·.blockerId)
    · right
      rw [if_pos hlinked] at hparent hc
      obtain ⟨link, hlink, hid⟩ := List.mem_map.mp hlinked
      obtain ⟨owner, howner, hownerId, hownerRequest⟩ := howned link hlink
      -- no two rows have one id
      have hsame : owner = b := List.inj_on_of_nodup_map hi.ids howner hb (hownerId.trans hid)
      subst hsame
      cases hc
      exact ⟨link, hlink, hownerRequest.symm.trans hparent, hchild link hlink⟩
    · left
      rw [if_neg hlinked] at hopen hparent hc
      exact ⟨b.id, ⟨b, hb, hopen, rfl, hparent, hc⟩, hlinked⟩

theorem relinked_nil : Relinked child [] s s := by
  refine ⟨?_, Nat.le_refl s.version⟩
  simp

theorem Relinked.trans {ids' : List String} (h : Relinked child ids s s') (h' : Relinked child ids' s' s'') :
    Relinked child (ids ++ ids') s s'' := by
  constructor
  · rw [h'.blockers, h.blockers, List.map_map]
    apply List.map_congr_left
    intro b _
    by_cases hb : b.id ∈ ids <;> by_cases hb' : b.id ∈ ids' <;> simp [hb, hb']
  · have hfirst := h.version
    have hsecond := h'.version
    rw [List.length_append]
    omega

theorem SameGraph.relinked (h : SameGraph s s') (h' : Relinked child ids s' s'') : Relinked child ids s s'' :=
  ⟨by rw [h'.blockers, h.blockers], by rw [← h.version]; exact h'.version⟩

theorem Relinked.same (h : Relinked child ids s s') (h' : SameGraph s' s'') : Relinked child ids s s'' :=
  ⟨by rw [h'.blockers, h.blockers], by rw [h'.version]; exact h.version⟩

/-- An update of one blocker that finds it. -/
theorem updateBlockers_relinked {p : DependencyBlocker → Bool} {id : String} (hids : (s.blockers.map (·.id)).Nodup)
    (hp : ∀ b, p b = true → b.id = id)
    (hfound : (updateBlockers p (fun b => { b with dependencyRequestId := some child }) s).2 ≠ 0) :
    Relinked child [id] s (updateBlockers p (fun b => { b with dependencyRequestId := some child }) s).1 := by
  obtain ⟨a, ha, hpa⟩ := List.countP_pos_iff.mp (Nat.pos_of_ne_zero hfound)
  have hiff : ∀ b ∈ s.blockers, p b = true ↔ b.id ∈ [id] := by
    intro b hb
    rw [List.mem_singleton]
    refine ⟨hp b, fun hid => ?_⟩
    have hsame : a = b := List.inj_on_of_nodup_map hids ha hb ((hp a hpa).trans hid.symm)
    rwa [← hsame]
  constructor
  · apply List.map_congr_left
    intro b hb
    simp only [hiff b hb]
  · have hone : 0 < s.blockers.countP fun b => p b &&
        (b.dependencyRequestId.isSome || (some child).isSome) := List.countP_pos_iff.mpr ⟨a, ha, by simp [hpa]⟩
    simp only [updateBlockers, List.length_singleton]
    omega

/-- An update that finds no blocker. -/
theorem updateBlockers_none {p : DependencyBlocker → Bool} {f : DependencyBlocker → DependencyBlocker}
    (hnone : (updateBlockers p f s).2 = 0) : SameGraph s (updateBlockers p f s).1 := by
  have hall : ∀ b ∈ s.blockers, p b = false := fun b hb => by simpa using List.countP_eq_zero.mp hnone b hb
  refine ⟨Sql.update_none_of_zero hnone, ?_⟩
  have hcount : s.blockers.countP (fun b => p b && (b.dependencyRequestId.isSome || (f b).dependencyRequestId.isSome)) = 0 :=
    List.countP_eq_zero.mpr fun b hb => by simp [hall b hb]
  simp only [updateBlockers, hcount, Nat.add_zero]

/-! ### Statements -/

/-- What a statement that links nothing does. -/
def Safe (s s' : DependencyDb) : Prop := Sound s → Sound s' ∧ Grows s s'

instance : Std.Refl Safe := ⟨fun s hi => ⟨hi, refl_of Grows s⟩⟩

instance : IsTrans DependencyDb Safe := by
  refine ⟨fun s s' s'' h h' hi => ?_⟩
  obtain ⟨hi', hg⟩ := h hi
  obtain ⟨hi'', hg'⟩ := h' hi'
  exact ⟨hi'', hg.trans hg'⟩

theorem SameGraph.safe (h : SameGraph s s') : Safe s s' := fun hi => ⟨h.sound hi, h.grows⟩

theorem closeBlockers_safe {p : DependencyBlocker → Bool} {f : DependencyBlocker → DependencyBlocker}
    (hid : ∀ b, (f b).id = b.id) (hrequest : ∀ b, (f b).requestId = b.requestId) (hclose : ∀ b, (f b).status ≠ .open) :
    Safe s (updateBlockers p f s).1 := fun hi => ⟨closeBlockers_sound hid hclose hi, updateBlockers_grows hid hrequest⟩

/-- A statement whose every success is in a relation. -/
def Does (R : DependencyDb → DependencyDb → Prop) (statement : Sql.Statement DependencyDb) : Prop :=
  ∀ s n s' n', statement s n = .ok (s', n') → R s s'

theorem updateRequests_does (p : DependencyDb → PackageRequest → Bool) (f : PackageRequest → PackageRequest) :
    Does SameGraph fun db _ => .ok (updateRequests (p db) f db) := by
  intro s n s' n' h
  cases h
  exact ⟨rfl, rfl⟩

theorem updateProposals_does (p : DependencyProposal → Bool) (f : DependencyProposal → DependencyProposal) :
    Does SameGraph fun db _ => .ok (updateProposals p f db) := by
  intro s n s' n' h
  cases h
  exact ⟨rfl, rfl⟩

theorem audit_does : Does SameGraph audit := by
  intro s n s' n' h
  cases h
  exact ⟨rfl, rfl⟩

theorem auditChange_does : Does SameGraph auditChange := by
  intro s n s' n' h
  cases h
  exact ⟨rfl, rfl⟩

theorem assertEqual_ok {expected n n' : Nat} {actual : DependencyDb → Nat}
    (h : assertEqual expected actual s n = .ok (s', n')) : s' = s ∧ expected = actual s := by
  unfold assertEqual at h
  split at h
  · next heq =>
    cases h
    exact ⟨rfl, heq⟩
  · cases h

theorem assertEqual_does (expected : Nat) (actual : DependencyDb → Nat) : Does SameGraph (assertEqual expected actual) := by
  intro s n s' n' h
  obtain ⟨rfl, -⟩ := assertEqual_ok h
  exact refl_of SameGraph s'

theorem assertChanged_ok {n n' : Nat} (h : assertChanged s n = .ok (s', n')) : s' = s ∧ n = 1 := by
  unfold assertChanged at h
  split at h
  · next heq =>
    cases h
    exact ⟨rfl, heq⟩
  · cases h

theorem countRequest_does (key : String) (timestamp : Nat) : Does SameGraph (countRequest key timestamp) := by
  intro s n s' n' h
  unfold countRequest at h
  split at h <;> cases h <;> exact ⟨rfl, rfl⟩

theorem insertRequest_does (key : String) (row : PackageRequest) : Does SameGraph (insertRequest key row) := by
  intro s n s' n' h
  unfold insertRequest at h
  split at h
  · obtain ⟨⟨requests, changes⟩, -, h⟩ := Fallible.bind_ok.mp h
    cases h
    exact ⟨rfl, rfl⟩
  · cases h
    exact ⟨rfl, rfl⟩

theorem pendingRequestStatements_does {reviewer : Actor} {value : RequestInput} {requestId : String} {timestamp : Nat} :
    ∀ statement ∈ pendingRequestStatements reviewer value requestId timestamp, Does SameGraph statement := by
  simp only [pendingRequestStatements, List.forall_mem_cons, List.not_mem_nil, false_implies, implies_true, and_true]
  exact ⟨countRequest_does _ _, insertRequest_does _ _, auditChange_does⟩

theorem submitStatements_does {reviewer : Actor} {requestId : String} {timestamp : Nat} {request : Option RequestInput} :
    ∀ statement ∈ submitStatements reviewer requestId timestamp request, Does SameGraph statement := by
  cases request with
  | none => simp [submitStatements]
  | some request =>
    intro statement h
    rcases List.mem_append.mp h with h | h
    · exact pendingRequestStatements_does statement h
    · rw [List.mem_singleton] at h
      rw [h]
      exact assertEqual_does _ _

/-- The parents of a proposal are linked, each of them. -/
theorem linkStatements_ok {after : List (Sql.Statement DependencyDb)} {n : Nat} {ns : List Nat}
    (hids : (s.blockers.map (·.id)).Nodup) (h : Sql.runAll (linkStatements child links ++ after) s n = .ok (s', ns)) :
    ∃ s₁ n₁ ns₁, Relinked child (links.map (·.blockerId)) s s₁ ∧ Sql.runAll after s₁ n₁ = .ok (s', ns₁) := by
  induction links generalizing s n ns with
  | nil => exact ⟨s, n, ns, relinked_nil, h⟩
  | cons link rest ih =>
    obtain ⟨s₁, n₁, ns₁, hlink, h₁, -⟩ := Sql.runAll_cons_ok.mp h
    obtain ⟨s₂, n₂, ns₂, hassert, h₂, -⟩ := Sql.runAll_cons_ok.mp h₁
    obtain ⟨s₃, n₃, ns₃, haudit, h₃, -⟩ := Sql.runAll_cons_ok.mp h₂
    obtain ⟨rfl, rfl⟩ := assertChanged_ok hassert
    cases haudit
    have hfirst : Relinked child [link.blockerId] s s₂ := by
      have hupdate := Except.ok.inj hlink
      have hstate : (updateBlockers _ _ s).1 = s₂ := congrArg Prod.fst hupdate
      rw [← hstate]
      apply updateBlockers_relinked hids
      · intro b hp
        simp only [Bool.and_eq_true, decide_eq_true_eq] at hp
        exact hp.1.1
      · rw [hupdate]
        exact Nat.one_ne_zero
    have hids₂ : (s₂.blockers.map (·.id)).Nodup := by rwa [hfirst.sameIds]
    obtain ⟨s₄, n₄, ns₄, hrest, hafter⟩ := ih hids₂ h₃
    exact ⟨s₄, n₄, ns₄, hfirst.trans hrest, hafter⟩

/-- The batch of an admission, whose version was checked. -/
theorem admitStatements_ok {reviewer : Actor} {proposalId digest requestId : String} {timestamp version : Nat}
    {request : Option RequestInput} {ns : List Nat} (hids : (s.blockers.map (·.id)).Nodup)
    (h : Sql.runAll (admitStatements reviewer proposalId digest requestId timestamp version request links) s 0 = .ok (s', ns)) :
    s.version = version ∧ Relinked requestId (links.map (·.blockerId)) s s' := by
  simp only [admitStatements, List.append_assoc, List.cons_append, List.nil_append] at h
  obtain ⟨s₁, n₁, ns₁, hproposal, h₁, -⟩ := Sql.runAll_cons_ok.mp h
  obtain ⟨s₂, n₂, ns₂, hversion, h₂, -⟩ := Sql.runAll_cons_ok.mp h₁
  obtain ⟨rfl, -⟩ := assertEqual_ok hproposal
  obtain ⟨rfl, rfl⟩ := assertEqual_ok hversion
  obtain ⟨s₃, n₃, ns₃, hsame, h₃⟩ := Sql.runAll_append submitStatements_does h₂
  rw [← hsame.blockers] at hids
  obtain ⟨s₄, n₄, ns₄, hlinked, h₄⟩ := linkStatements_ok hids h₃
  have hlast : SameGraph s₄ s' := by
    refine Sql.runAll_all ?_ h₄
    simp only [List.forall_mem_cons, List.not_mem_nil, false_implies, implies_true, and_true]
    exact ⟨updateProposals_does _ _, audit_does⟩
  exact ⟨rfl, (hsame.relinked hlinked).same hlast⟩

end

end Omapkg.Server.Dependency
