import Omapkg.Server.DependencyInvariant
/-!
# Runs of dependency requests

Links, proposals, resolved and superseded blockers in any order, each call
losing its race or winning it: the graph they leave has no cycle, no chain of
more than 8 requests and no request that reaches more than 64.
-/

namespace Omapkg.Server.Dependency

open Utf Prog Expansion

/-- What a call keeps, whoever runs beside it. -/
abbrev Links {α : Type} (Q : α → DependencyDb → Prop) (p : Prog DependencyDb PolicyError α) (s : DependencyDb) : Prop :=
  Keeps Sound (fun _ _ => True) Grows Grows Q p s

section
variable {s : DependencyDb} {draws : Draws} {actor : Option Actor} {α : Type} {Q : α → DependencyDb → Prop}

theorem links_pure (a : α) : Links (fun _ _ => True) (pure a) s := fun _ _ _ => trivial

theorem safe_run {statements : List (Sql.Statement DependencyDb)} {raise : Sql.Raised → PolicyError}
    {f : List Nat → Prog DependencyDb PolicyError α} (hall : ∀ statement ∈ statements, Does Safe statement)
    (hf : ∀ ns s, Sound s → Links Q (f ns) s) : Links Q (Sql.run statements raise >>= f) s := by
  refine Sql.keeps_run_bind fun s₁ s₂ ns hi₁ _ hrun _ => ?_
  obtain ⟨hi₂, hg⟩ := Sql.runAll_all hall hrun hi₁
  exact ⟨hi₂, hg, hf ns s₂ hi₂⟩

theorem Does.safe {statement : Sql.Statement DependencyDb} (h : Does SameGraph statement) : Does Safe statement :=
  fun s n s' n' hok => (h s n s' n' hok).safe

theorem auditChange_safe : Does Safe auditChange := auditChange_does.safe

theorem updateRequests_safe (p : DependencyDb → PackageRequest → Bool) (f : PackageRequest → PackageRequest) :
    Does Safe fun db _ => .ok (updateRequests (p db) f db) := (updateRequests_does p f).safe

/-! ## Checks -/

theorem checkDependencyLinks_keeps {order : RowOrder (String × String)} {links : List DependencyLink} :
    Links (fun version s => links ≠ [] ∧ Checked links version s) (checkDependencyLinks order links) s := by
  unfold checkDependencyLinks
  split
  · trivial
  · next hcount =>
    have hlinks : links ≠ [] := fun h => hcount (.inl h)
    split
    · trivial
    · refine keeps_read_bind fun s₁ _ _ => ?_
      refine keeps_read_bind fun s₂ _ hs₂ => ?_
      refine keeps_ofExcept_bind fun _ hchecked => ?_
      -- what was read after the version is of this version or a later one
      have hbounded : Bounded (replaced links s₂) 8 64 := ((checkEdges_ok hlinks).mp hchecked).1
      have h : Checked links s₁.version s₂ := ⟨hs₂.version, fun _ => hbounded⟩
      exact fun s₃ _ hs₃ => ⟨hlinks, h.grows hs₃⟩

theorem currentBlocker_keeps {requestId blockerId : String} :
    Links (fun blocker s => blocker.id = blockerId ∧ Owned s blockerId requestId)
      (currentBlocker actor requestId blockerId) s := by
  unfold currentBlocker
  refine keeps_read_bind fun s₁ _ _ => ?_
  cases s₁.requests.find? (·.id = requestId) with
  | none => trivial
  | some request =>
    refine keeps_ofExcept_bind fun _ _ => ?_
    refine keeps_read_bind fun s₂ _ _ => ?_
    cases hfound : s₂.blockers.find? fun b => b.id = blockerId && b.requestId = requestId && b.status = .open with
    | none => trivial
    | some blocker =>
      have hp := List.find?_some hfound
      simp only [Bool.and_eq_true, decide_eq_true_eq] at hp
      have howned : Owned s₂ blockerId requestId := ⟨blocker, List.mem_of_find?_eq_some hfound, hp.1⟩
      show Links _ (if _ then _ else _) s₂
      split
      · trivial
      · exact fun s₃ _ hs₃ => ⟨hp.1.1, howned.grows hs₃⟩

/-! ## Resolving -/

theorem resolveBlocker_keeps {blocker : DependencyBlocker} : Links (fun _ _ => True) (resolveBlocker blocker) s := by
  apply safe_run
  · simp only [List.forall_mem_cons, List.not_mem_nil, false_implies, implies_true, and_true]
    refine ⟨?_, audit_does.safe⟩
    intro s n s' n' h
    cases h
    apply closeBlockers_safe
    · exact fun _ => rfl
    · exact fun _ => rfl
    · intro b h
      cases h
  · exact fun _ _ _ => links_pure ()

theorem resolveEach_keeps {releases : List Provider} {blockers : List DependencyBlocker} (hi : Sound s) :
    Links (fun _ _ => True) (resolveEach releases blockers) s := by
  induction blockers generalizing s with
  | nil => exact links_pure ()
  | cons blocker rest ih =>
    unfold resolveEach
    split
    · exact keeps_bind hi resolveBlocker_keeps fun _ s₁ hi₁ _ => ih hi₁
    · exact ih hi

theorem resumeParent_keeps {parent : String} : Links (fun _ _ => True) (resumeParent parent) s := by
  apply safe_run
  · simp only [List.forall_mem_cons, List.not_mem_nil, false_implies, implies_true, and_true]
    exact ⟨updateRequests_safe (fun db r => r.id = parent && r.status = .blocked &&
      ¬db.blockers.any fun b => b.requestId = r.id && b.status = .open) _, auditChange_safe⟩
  · exact fun _ _ _ => links_pure ()

theorem resumeEach_keeps {parents : List String} (hi : Sound s) : Links (fun _ _ => True) (resumeEach parents) s := by
  induction parents generalizing s with
  | nil => exact links_pure ()
  | cons parent rest ih => exact keeps_bind hi resumeParent_keeps fun _ s₁ hi₁ _ => ih hi₁

theorem resolveDependencyBlockers_keeps {order : RowOrder DependencyBlocker} {requestId : Option String} :
    Links (fun _ _ => True) (resolveDependencyBlockers order requestId) s := by
  unfold resolveDependencyBlockers
  refine keeps_read_bind fun s₁ hi₁ _ => ?_
  split
  · exact links_pure ()
  · refine keeps_read_bind fun s₂ hi₂ _ => ?_
    exact keeps_bind hi₂ (resolveEach_keeps hi₂) fun _ s₃ hi₃ _ => resumeEach_keeps hi₃

/-! ## Linking -/

/-- The guarded update writes what was checked, or nothing. -/
theorem linkBlocker_safe {parent child blockerId : String} {version n n' : Nat} {s' : DependencyDb}
    (h : linkBlocker blockerId child version s n = .ok (s', n')) (hi : Sound s)
    (hchecked : Checked [⟨parent, child, blockerId⟩] version s) (howned : Owned s blockerId parent) :
    Sound s' ∧ Grows s s' := by
  have hupdate := Except.ok.inj h
  have hstate : (updateBlockers _ _ s).1 = s' := congrArg Prod.fst hupdate
  by_cases hfound : (updateBlockers (fun b => b.id = blockerId && b.status = .open && s.version = version)
      (fun b => { b with dependencyRequestId := some child }) s).2 = 0
  · rw [← hstate]
    exact (updateBlockers_none hfound).safe hi
  · obtain ⟨b, -, hb⟩ := List.countP_pos_iff.mp (Nat.pos_of_ne_zero hfound)
    simp only [Bool.and_eq_true, decide_eq_true_eq] at hb
    have hlinked : Relinked child [blockerId] s s' := by
      rw [← hstate]
      refine updateBlockers_relinked hi.ids ?_ hfound
      intro b hp
      simp only [Bool.and_eq_true, decide_eq_true_eq] at hp
      exact hp.1.1
    refine ⟨?_, hlinked.grows (List.cons_ne_nil _ _)⟩
    have hlinks : Relinked child ([(⟨parent, child, blockerId⟩ : DependencyLink)].map (·.blockerId)) s s' := hlinked
    apply hlinks.sound hi
    · simp
    · simpa using howned
    · exact hchecked.bounded hb.2

theorem linkDependencyRequest_keeps {requestId blockerId child : String} (hi : Sound s) :
    Links (fun _ _ => True) (linkDependencyRequest draws actor requestId blockerId child) s := by
  unfold linkDependencyRequest
  refine keeps_bind hi currentBlocker_keeps fun blocker s₁ hi₁ ⟨hid, howned₁⟩ => ?_
  refine keeps_read_bind fun s₂ hi₂ hs₂ => ?_
  split
  · trivial
  · have howned₂ := howned₁.grows hs₂
    have hcheck : Links (fun version s => ([(⟨requestId, child, blockerId⟩ : DependencyLink)] ≠ [] ∧
        Checked [⟨requestId, child, blockerId⟩] version s) ∧ Owned s blockerId requestId)
        (checkDependencyGraph draws.edges requestId child blockerId) s₂ :=
      checkDependencyLinks_keeps.frame (fun _ _ h hs => h.grows hs) (fun _ _ h hs => h.grows hs) howned₂
    refine keeps_bind hi₂ hcheck fun version s₃ hi₃ ⟨⟨_, hchecked⟩, howned₃⟩ => ?_
    refine Sql.keeps_run_bind fun s₄ s₅ ns hi₄ hs₄ hrun _ => ?_
    obtain ⟨s₆, n₆, ns₆, hlink, haudit, -⟩ := Sql.runAll_cons_ok.mp hrun
    rw [hid] at hlink
    obtain ⟨hi₆, hg₆⟩ := linkBlocker_safe hlink hi₄ (hchecked.grows hs₄) (howned₃.grows hs₄)
    have hlast : SameGraph s₆ s₅ := by
      refine Sql.runAll_all ?_ haudit
      simp only [List.forall_mem_cons, List.not_mem_nil, false_implies, implies_true, and_true]
      exact auditChange_does
    refine ⟨hlast.sound hi₆, hg₆.trans hlast.grows, ?_⟩
    split
    · trivial
    · exact resolveDependencyBlockers_keeps

theorem submitRequest_keeps {env : DependencyEnv} {input : JsString} :
    Links (fun _ _ => True) (submitRequest env draws actor input) s := by
  unfold submitRequest
  cases actor with
  | none => trivial
  | some actor =>
    refine keeps_ofExcept_bind fun value _ => ?_
    refine keeps_read_bind fun s₁ hi₁ _ => ?_
    split
    · trivial
    · apply safe_run
      · exact fun statement h => (pendingRequestStatements_does statement h).safe
      · intro ns s₂ _
        split
        · trivial
        · exact links_pure _

theorem createDependencyRequest_keeps {env : DependencyEnv} {requestId blockerId : String} {input : JsString} (hi : Sound s) :
    Links (fun _ _ => True) (createDependencyRequest env draws actor requestId blockerId input) s := by
  unfold createDependencyRequest
  refine keeps_bind hi currentBlocker_keeps fun _ s₁ hi₁ _ => ?_
  refine keeps_bind hi₁ checkDependencyLinks_keeps fun _ s₂ hi₂ _ => ?_
  refine keeps_bind hi₂ submitRequest_keeps fun child s₃ hi₃ _ => ?_
  exact keeps_bind hi₃ (linkDependencyRequest_keeps hi₃) fun _ _ _ _ => links_pure child

/-! ## Proposals -/

theorem mem_proposalParents {proposalId : String} {parent : ProposalParent} (h : parent ∈ proposalParents proposalId s) :
    parent.blocker ∈ s.blockers := by
  rw [proposalParents, List.mem_insertionSort, List.mem_flatMap] at h
  obtain ⟨id, -, h⟩ := h
  obtain ⟨blocker, hblocker, h⟩ := List.mem_flatMap.mp h
  obtain ⟨request, -, rfl⟩ := List.mem_map.mp h
  exact (List.mem_filter.mp hblocker).1

/-- The blockers of the parents are still of the same requests. -/
def ParentsOwned (parents : List ProposalParent) (s : DependencyDb) : Prop :=
  ∀ parent ∈ parents, Owned s parent.blocker.id parent.blocker.requestId

theorem ParentsOwned.grows {parents : List ProposalParent} {s s' : DependencyDb} (h : ParentsOwned parents s)
    (hs : Grows s s') : ParentsOwned parents s' := fun parent hparent => (h parent hparent).grows hs

theorem getDependencyProposal_keeps {env : DependencyEnv} {proposalId : String} :
    Links (fun found s => ParentsOwned found.2.2 s) (getDependencyProposal env proposalId) s := by
  unfold getDependencyProposal
  refine keeps_read_bind fun s₁ _ _ => ?_
  cases s₁.proposals.find? (·.id = proposalId) with
  | none => trivial
  | some proposal =>
    show Links _ (if _ then _ else _) s₁
    split
    · trivial
    · refine keeps_read_bind fun s₂ _ _ => ?_
      refine keeps_ofExcept_bind fun manifest _ => ?_
      intro s₃ _ hs₃ parent hparent
      have howned : Owned s₂ parent.blocker.id parent.blocker.requestId :=
        ⟨parent.blocker, mem_proposalParents hparent, rfl, rfl⟩
      exact howned.grows hs₃

theorem chooseRequest_keeps {env : DependencyEnv} {manifest : ProposalManifest} {area : String}
    {existing : Option String} : Links (fun _ _ => True) (chooseRequest env actor manifest area existing) s := by
  unfold chooseRequest
  cases existing with
  | some existingId =>
    refine keeps_read_bind fun s₁ _ _ => ?_
    cases s₁.requests.find? (·.id = existingId) with
    | none => trivial
    | some request =>
      show Links _ (if _ then _ else _) s₁
      split
      · trivial
      · exact keeps_ofExcept_bind fun _ _ => links_pure none
  | none =>
    show Links _ (if _ then _ else _) s
    split
    · trivial
    · refine keeps_ofExcept_bind fun request _ => ?_
      cases manifest.targetPkgbase with
      | none => exact links_pure (some request)
      | some pkgbase =>
        refine keeps_read_bind fun s₁ _ _ => ?_
        exact keeps_ofExcept_bind fun _ _ => links_pure (some request)

theorem decline_keeps {proposalId digest : String} : Links (fun _ _ => True) (decline proposalId digest) s := by
  apply safe_run
  · simp only [List.forall_mem_cons, List.not_mem_nil, false_implies, implies_true, and_true]
    exact ⟨(updateProposals_does _ _).safe, auditChange_safe⟩
  · intro ns s₁ _
    split
    · trivial
    · exact links_pure ()

/-- The batch writes what was checked, whole or not at all. -/
theorem admitStatements_safe {reviewer : Actor} {proposalId digest requestId : String} {timestamp version : Nat}
    {request : Option RequestInput} {links : List DependencyLink} {ns : List Nat} {s' : DependencyDb}
    (h : Sql.runAll (admitStatements reviewer proposalId digest requestId timestamp version request links) s 0 = .ok (s', ns))
    (hi : Sound s) (hlinks : links ≠ []) (hchecked : Checked links version s)
    (hchild : ∀ link ∈ links, link.child = requestId) (howned : ∀ link ∈ links, Owned s link.blockerId link.parent) :
    Sound s' ∧ Grows s s' := by
  obtain ⟨hversion, hlinked⟩ := admitStatements_ok hi.ids h
  have hids : links.map (·.blockerId) ≠ [] := by simpa using hlinks
  exact ⟨hlinked.sound hi hchild howned (hchecked.bounded hversion), hlinked.grows hids⟩

theorem admitParents_keeps {env : DependencyEnv} {reviewer : Actor} {proposalId digest : String} {manifest : ProposalManifest}
    {parents : List ProposalParent} {existing : Option String} (hi : Sound s) (hparents : ParentsOwned parents s) :
    Links (fun _ _ => True) (admitParents env draws actor reviewer proposalId digest manifest parents existing) s := by
  unfold admitParents
  cases hopen : parents.filter fun parent => parent.blocker.status = .open && parent.requestStatus = .blocked with
  | nil => trivial
  | cons first rest =>
    have howned : ParentsOwned (first :: rest) s := by
      intro parent hparent
      rw [← hopen] at hparent
      exact hparents parent (List.mem_filter.mp hparent).1
    have hchoose : Links (fun _ s => True ∧ ParentsOwned (first :: rest) s)
        (chooseRequest env actor manifest first.area existing) s :=
      chooseRequest_keeps.frame (fun _ _ h hs => h.grows hs) (fun _ _ h hs => h.grows hs) howned
    refine keeps_bind hi hchoose fun request s₁ hi₁ ⟨_, howned₁⟩ => ?_
    refine keeps_bind hi₁ (checkDependencyLinks_keeps.frame (fun _ _ h hs => h.grows hs) (fun _ _ h hs => h.grows hs)
      howned₁) fun version s₂ hi₂ ⟨⟨hlinks, hchecked⟩, howned₂⟩ => ?_
    refine Sql.keeps_run_bind fun s₃ s₄ ns hi₃ hs₃ hrun _ => ?_
    have howned₃ := howned₂.grows hs₃
    obtain ⟨hi₄, hg₄⟩ := admitStatements_safe hrun hi₃ hlinks (hchecked.grows hs₃)
      (by
        intro link hlink
        obtain ⟨parent, -, rfl⟩ := List.mem_map.mp hlink
        rfl)
      (by
        intro link hlink
        obtain ⟨parent, hparent, rfl⟩ := List.mem_map.mp hlink
        exact howned₃ parent hparent)
    exact ⟨hi₄, hg₄, links_pure ()⟩

theorem decideDependencyProposal_keeps {env : DependencyEnv} {proposalId digest decision : String} {message : JsString}
    {existing : Option String} (hi : Sound s) :
    Links (fun _ _ => True) (decideDependencyProposal env draws actor proposalId digest decision message existing) s := by
  unfold decideDependencyProposal
  refine keeps_bind hi getDependencyProposal_keeps fun ⟨proposal, manifest, parents⟩ s₁ hi₁ hparents => ?_
  refine keeps_ofExcept_bind fun reviewer _ => ?_
  refine keeps_ofExcept_bind fun _ _ => ?_
  split
  · trivial
  split
  · trivial
  split
  · exact links_pure ()
  split
  · trivial
  split
  · exact decline_keeps
  · exact admitParents_keeps hi₁ hparents

/-! ## Superseding -/

theorem supersede_does {requestId generationId : String} : Does Safe (supersede requestId generationId) := by
  intro s n s' n' h
  cases h
  apply closeBlockers_safe
  · exact fun _ => rfl
  · exact fun _ => rfl
  · intro b h
    cases h

theorem startFactory_keeps {env : DependencyEnv} {requestId : String} {reason : Option JsString} :
    Links (fun _ _ => True) (startFactory env draws actor requestId reason) s := by
  unfold startFactory
  refine keeps_read_bind fun s₁ _ _ => ?_
  cases s₁.requests.find? (·.id = requestId) with
  | none => trivial
  | some request =>
    refine keeps_ofExcept_bind fun _ _ => ?_
    split
    · trivial
    split
    · trivial
    split
    · trivial
    split
    · trivial
    split
    · trivial
    apply safe_run
    · simp only [List.forall_mem_cons, List.not_mem_nil, false_implies, implies_true, and_true]
      exact ⟨updateRequests_safe (fun _ r => r.id = requestId && r.status = request.status) _, auditChange_safe,
        supersede_does⟩
    · intro ns s₂ _
      split
      · trivial
      split
      · exact links_pure ()
      · apply safe_run
        · simp only [List.forall_mem_cons, List.not_mem_nil, false_implies, implies_true, and_true]
          exact ⟨updateRequests_safe (fun _ r =>
            r.id = requestId && r.status = .generating && r.factoryRunId = some draws.id) _, auditChange_safe⟩
        · intro ns s₃ _
          split <;> trivial

/-! ## Every run -/

theorem DependencyCall.run_keeps {env : DependencyEnv} {call : DependencyCall} (hi : Sound s) :
    Links (fun _ _ => True) (call.run env draws actor) s := by
  cases call with
  | link requestId blockerId child => exact linkDependencyRequest_keeps hi
  | create requestId blockerId input =>
    exact keeps_bind hi (createDependencyRequest_keeps hi) fun _ _ _ _ => links_pure ()
  | decide proposalId digest decision message existing => exact decideDependencyProposal_keeps hi
  | resolve requestId => exact resolveDependencyBlockers_keeps
  | start requestId reason => exact startFactory_keeps

/-- A reported blocker is linked to nothing yet. -/
theorem reported_safe {row : DependencyBlocker} (hnew : s.blockers.any (·.id = row.id) = false)
    (hunlinked : row.dependencyRequestId = none) : Safe s { s with blockers := s.blockers ++ [row] } := by
  intro hi
  have hlinked : ∀ id parent child, Linked s id parent child ↔
      Linked { s with blockers := s.blockers ++ [row] } id parent child := by
    intro id parent child
    constructor
    · rintro ⟨b, hb, h⟩
      exact ⟨b, List.mem_append_left _ hb, h⟩
    · rintro ⟨b, hb, hopen, hid, hparent, hchild⟩
      rcases List.mem_append.mp hb with hb | hb
      · exact ⟨b, hb, hopen, hid, hparent, hchild⟩
      · rw [List.mem_singleton] at hb
        rw [hb, hunlinked] at hchild
        cases hchild
  refine ⟨⟨?_, hi.bounded.mono fun a c hc => ?_⟩, ⟨fun b hb => ?_, Nat.le_refl s.version, fun _ => hlinked⟩⟩
  · rw [List.map_append, List.map_singleton, List.nodup_append_comm]
    rw [List.singleton_append, List.nodup_cons]
    refine ⟨fun hmem => ?_, hi.ids⟩
    obtain ⟨b, hb, hid⟩ := List.mem_map.mp hmem
    have hno := List.any_eq_false.mp hnew b hb
    simp [hid] at hno
  · obtain ⟨id, h⟩ := mem_graph.mp hc
    exact mem_graph.mpr ⟨id, (hlinked id a c).mpr h⟩
  · exact ⟨b, List.mem_append_left _ hb, rfl, rfl⟩

theorem Outside.safe {s s' : DependencyDb} (h : Outside s s') : Safe s s' := by
  cases h with
  | reported row hnew _ hunlinked => exact reported_safe hnew hunlinked
  | superseded p =>
    apply closeBlockers_safe
    · exact fun _ => rfl
    · exact fun _ => rfl
    · intro b h
      cases h
  | others requests proposals proposalBlockers releases catalog rateLimits =>
    have hsame : SameGraph s { s with requests, proposals, proposalBlockers, releases, catalog, rateLimits } := ⟨rfl, rfl⟩
    exact hsame.safe

theorem calls_agree (env : DependencyEnv) :
    Pool.Agree (Calls env) Outside Sound (fun _ _ => True) (fun _ => Grows) (fun _ => Grows) (fun _ _ => True) where
  refl _ := inferInstance
  trans _ := inferInstance
  start hcall hi := by
    obtain ⟨draws, actor, call, rfl⟩ := hcall
    exact call.run_keeps hi
  others _ _ _ hg := hg
  outside hout hi := by
    obtain ⟨hi', hg⟩ := hout.safe hi
    exact ⟨hi', fun _ => hg⟩

theorem sound_empty {db : DependencyDb} (h : db.blockers = []) : Sound db := by
  constructor
  · rw [h]
    exact List.nodup_nil
  · rw [h]
    exact bounded_nil (by omega) (by omega)

end

/-- In every state that calls reach, in any order of their steps, no requests wait for
each other in a cycle, no chain has more than 8 requests and none reaches more than 64;
and 1 to 64 links are rejected exactly when they would break a bound or the budget. -/
theorem dependency_graph_bounded (env : DependencyEnv) {first : DependencyDb}
    {pool : Pool DependencyDb PolicyError Unit} (hfirst : first.blockers = [])
    (hsteps : Pool.Steps (Calls env) Outside ⟨first, []⟩ pool) :
    Bounded (linkedTo pool.state.blockers) 8 64 ∧
      ∀ (order : RowOrder (String × String)) (links : List DependencyLink) (db : DependencyDb),
        links ≠ [] → links.length ≤ 64 →
          ((∃ e, ((checkDependencyLinks order links).run db).1 = .error e) ↔
            ¬(Bounded (replaced links db) 8 64 ∧ (otherEdges links db).length + links.length ≤ 4096)) := by
  constructor
  · have hgood : (⟨first, []⟩ : Pool DependencyDb PolicyError Unit).Good Sound (fun _ _ => True) (fun _ => Grows)
        (fun _ => Grows) (fun _ _ => True) := Pool.good_start (sound_empty hfirst)
    exact (hgood.steps (calls_agree env) hsteps).1.bounded
  · intro order links db hlinks hmost
    rw [checkDependencyLinks_answer, checkDependencyLinks_run hlinks hmost]

/-! ## Examples -/

def inOrder {α : Type} : RowOrder α := ⟨id, fun _ => .refl _⟩

def sampleEnv : DependencyEnv where
  sha256 text := text
  parseRequest _ := reject "Invalid request." 400
  parseProposed _ _ := reject "Invalid request." 400
  parseDependencyProposal _ := reject "Invalid dependency proposal." 400
  externalPackageSource _ := false
  pipeline := true

def sampleDraws : Draws := ⟨0, "generation", inOrder, inOrder, inOrder, true⟩

/-- A blocked request and one that could provide what it needs. -/
def sampleRequests : DependencyDb where
  version := 0
  blockers := []
  requests := [⟨"app", "app", "system", "", .blocked, none, false, false⟩, ⟨"lib", "lib", "system", "", .pending, none, false, false⟩]
  proposals := []
  proposalBlockers := []
  releases := []
  catalog := []
  rateLimits := []

def sampleBlocker : DependencyBlocker := ⟨"missing", "app", .x86_64, some "lib", .dependency, none, .open⟩

def sampleMaintainer : Actor := ⟨"github:1", .admin, []⟩

/-- The blocker is reported, and linked to the other request. -/
def sampleLinked : Pool DependencyDb PolicyError Unit :=
  ((Pool.moving (fun db => { db with blockers := db.blockers ++ [sampleBlocker] }) ⟨sampleRequests, []⟩).starting
    (DependencyCall.run sampleEnv sampleDraws (some sampleMaintainer) (.link "app" "missing" "lib"))).turns
      (List.replicate 8 0)

theorem sampleLinked_steps : Pool.Steps (Calls sampleEnv) Outside ⟨sampleRequests, []⟩ sampleLinked := by
  have hreported : Pool.Steps (Calls sampleEnv) Outside ⟨sampleRequests, []⟩
      (Pool.moving (fun db => { db with blockers := db.blockers ++ [sampleBlocker] }) ⟨sampleRequests, []⟩) := by
    apply Pool.Steps.moving .refl
    exact .reported sampleRequests sampleBlocker rfl rfl rfl
  exact (hreported.starting ⟨sampleDraws, some sampleMaintainer, _, rfl⟩).turns _

theorem dependency_graph_bounded_sample :
    linkedTo sampleLinked.state.blockers "app" = ["lib"] ∧ Bounded (linkedTo sampleLinked.state.blockers) 8 64 ∧
      ((∃ e, ((checkDependencyLinks inOrder [⟨"lib", "app", "other"⟩]).run sampleLinked.state).1 = .error e) ↔
        ¬(Bounded (replaced [⟨"lib", "app", "other"⟩] sampleLinked.state) 8 64 ∧
          (otherEdges [⟨"lib", "app", "other"⟩] sampleLinked.state).length + 1 ≤ 4096)) := by
  obtain ⟨hbounded, hchecks⟩ := dependency_graph_bounded sampleEnv rfl sampleLinked_steps
  exact ⟨by decide, hbounded, hchecks inOrder _ _ (List.cons_ne_nil _ _) (by decide)⟩

/-- A graph of one edge is within the bounds. -/
theorem bounded_edge {next : String → List String} {parent child : String} (hne : parent ≠ child)
    (h : ∀ a c, c ∈ next a → a = parent ∧ c = child) : Bounded next 8 64 := by
  rw [bounded_iff]
  have hleaf : ∀ a, a ≠ parent → next a = [] := by
    intro a ha
    rw [List.eq_nil_iff_forall_not_mem]
    exact fun c hc => ha (h a c hc).1
  intro a
  by_cases ha : a = parent
  · constructor
    · rintro ⟨b, hb, c, hc, -⟩
      have hb' := (h a b hb).2
      have hc' := (h b c hc).1
      exact hne (hc'.symm.trans hb')
    · intro l hl hr
      have hsub : l ⊆ [parent, child] := by
        intro b hb
        rcases Relation.ReflTransGen.cases_tail (hr b hb) with hb | ⟨c, -, hcb⟩
        · simp [hb, ha]
        · simp [(h c b hcb).2]
      have hlength := (hl.subperm hsub).length_le
      rw [List.length_cons, List.length_singleton] at hlength
      omega
  · exact within_leaf (by omega) (by omega) (hleaf a ha)

/-- 65 blockers of one request that another request provides for. -/
def manyLinks : List DependencyLink := (List.range 65).map fun n => ⟨"app", "lib", "blocker-" ++ toString n⟩

/-- They keep the bounds and the budget, and are rejected for their number. -/
theorem many_links_rejected :
    (∃ e, ((checkDependencyLinks inOrder manyLinks).run sampleRequests).1 = .error e) ∧
      Bounded (replaced manyLinks sampleRequests) 8 64 ∧
      (otherEdges manyLinks sampleRequests).length + manyLinks.length ≤ 4096 := by
  have hmany : manyLinks.length = 65 := by simp [manyLinks]
  have hother : otherEdges manyLinks sampleRequests = [] := rfl
  refine ⟨?_, ?_, by rw [hother, hmany]; decide⟩
  · rw [checkDependencyLinks, if_pos (.inr (by omega))]
    exact ⟨_, rfl⟩
  · apply bounded_edge (by decide : "app" ≠ "lib")
    intro a c hc
    rcases mem_replaced.mp hc with ⟨id, ⟨b, hb, -⟩, -⟩ | ⟨link, hlink, hparent, hchild⟩
    · cases hb
    · obtain ⟨n, -, rfl⟩ := List.mem_map.mp hlink
      exact ⟨hparent.symm, hchild.symm⟩

end Omapkg.Server.Dependency
