import Omapkg.Server.ImportReconciliation
/-!
# Runs of a reconciliation

Whatever runs beside it, and wherever others stopped, a run of `reconcileCatalogImports` stores the
rows of the comparison once, hashes them in the order of their keys and reports them.
-/

namespace Omapkg.Server.Reconciliation

open Utf Json Prog
open Dependency (Actor humanMaintainer)
open Rebuild (UnitsLE sorted sorted_perm sorted_pairwise mem_sorted)

/-! ## Items in the order of their keys -/

abbrev Ascending (ds : List ImportDifference) : Prop := ds.Pairwise fun a b => a.key < b.key

theorem Ascending.nodup {ds : List ImportDifference} (h : Ascending ds) : (ds.map (·.key)).Nodup :=
  List.pairwise_map.mpr (h.imp ne_of_lt)

/-- Items with the rows of an ascending list come in its order. -/
theorem mergeSort_items {items ds : List ImportDifference} (hperm : items.Perm ds) (h : Ascending ds) :
    items.mergeSort keyLE = ds := by
  have htrans : ∀ a b d : ImportDifference, keyLE a b = true → keyLE b d = true → keyLE a d = true := by
    intro a b d hab hbd
    exact decide_eq_true (le_trans (of_decide_eq_true hab) (of_decide_eq_true hbd))
  have htotal : ∀ a b : ImportDifference, (keyLE a b || keyLE b a) = true := by
    intro a b
    rw [Bool.or_eq_true]
    exact (le_total a.key b.key).imp decide_eq_true decide_eq_true
  have hsorted : ds.Pairwise fun a b => keyLE a b = true := h.imp fun hab => decide_eq_true (le_of_lt hab)
  refine ((List.mergeSort_perm items keyLE).trans hperm).eq_of_pairwise ?_ (List.pairwise_mergeSort htrans htotal items) hsorted
  intro a b ha hb hab hba
  have ha' : a ∈ ds := hperm.mem_iff.mp (List.mem_mergeSort.mp ha)
  exact List.inj_on_of_nodup_map h.nodup ha' hb (le_antisymm (of_decide_eq_true hab) (of_decide_eq_true hba))

/-- What comes after an item in an ascending list. -/
theorem filter_after {ds before after : List ImportDifference} {a : ImportDifference} (h : Ascending ds)
    (hsplit : ds = before ++ a :: after) : ds.filter (fun d => a.key < d.key) = after := by
  subst hsplit
  obtain ⟨-, hafter, hbefore⟩ := List.pairwise_append.mp h
  rw [List.pairwise_cons] at hafter
  have hnone : before.filter (fun d => a.key < d.key) = [] := by
    rw [List.filter_eq_nil_iff]
    intro d hd
    rw [decide_eq_true_eq]
    exact lt_asymm (hbefore d hd a List.mem_cons_self)
  have hall : after.filter (fun d => a.key < d.key) = after :=
    List.filter_eq_self.mpr fun d hd => decide_eq_true (hafter.1 d hd)
  rw [List.filter_append, hnone, List.nil_append, List.filter_cons, if_neg (by simp), hall]

/-! ## The text that is hashed -/

def hashed (ds : List ImportDifference) : Nat × List Char := ds.foldl hashItem (0, [])

theorem hashed_append (done page : List ImportDifference) : hashed (done ++ page) = page.foldl hashItem (hashed done) :=
  List.foldl_append

theorem foldl_hashItem (ds : List ImportDifference) (n : Nat) (text : List Char) :
    ds.foldl hashItem (n + 1, text) = (n + 1 + ds.length, text ++ ds.flatMap fun d => ',' :: canonicalJson d.json) := by
  induction ds generalizing n text with
  | nil => simp
  | cons d ds ih =>
    have hstep : hashItem (n + 1, text) d = (n + 1 + 1, text ++ (',' :: canonicalJson d.json)) := rfl
    rw [List.foldl_cons, hstep, ih, List.flatMap_cons, List.append_assoc, List.length_cons]
    refine Prod.ext ?_ rfl
    simp only
    omega

theorem printMoreElems_eq (ds : List ImportDifference) : printMoreElems jsQuote (canonicalElems (ds.map (·.json))) =
    (ds.flatMap fun d => ',' :: canonicalJson d.json) ++ [']'] := by
  induction ds with
  | nil => rfl
  | cons d ds ih =>
    rw [List.map_cons, canonicalElems, printMoreElems, ih, List.flatMap_cons, List.cons_append, List.cons_append,
      List.append_assoc]
    rfl

/-- The pieces make up the canonical JSON of the whole list. -/
theorem hashed_text (ds : List ImportDifference) : (hashed ds).1 = ds.length ∧
    '[' :: ((hashed ds).2 ++ [']']) = canonicalJson (.arr (ds.map (·.json))) := by
  cases ds with
  | nil => exact ⟨rfl, rfl⟩
  | cons d ds =>
    have hfirst : hashed (d :: ds) = ds.foldl hashItem (0 + 1, canonicalJson d.json) := rfl
    rw [hfirst, foldl_hashItem]
    refine ⟨by rw [List.length_cons]; omega, ?_⟩
    rw [List.append_assoc, ← printMoreElems_eq]
    rfl

/-! ## Writing the rows -/

theorem foldl_insertItem_fresh {id : String} {items : List ItemRow} {rows : List ImportDifference}
    (hfresh : ∀ row ∈ items, row.reportId = id → row.item.key ∉ rows.map (·.key)) (hnodup : (rows.map (·.key)).Nodup) :
    rows.foldl (insertItem id) items = items ++ rows.map fun item => ⟨id, item⟩ := by
  induction rows generalizing items with
  | nil => simp
  | cons item rows ih =>
    rw [List.map_cons, List.nodup_cons] at hnodup
    have hnew : ¬items.any (fun row => row.reportId = id && row.item.key = item.key) = true := by
      intro hany
      obtain ⟨row, hrow, hsame⟩ := List.any_eq_true.mp hany
      rw [Bool.and_eq_true, decide_eq_true_eq, decide_eq_true_eq] at hsame
      exact hfresh row hrow hsame.1 (hsame.2 ▸ List.mem_cons_self)
    rw [List.foldl_cons, insertItem, if_neg hnew, ih _ hnodup.2, List.append_assoc]
    · rfl
    · intro row hrow hid
      rcases List.mem_append.mp hrow with hrow | hrow
      · exact fun hmem => hfresh row hrow hid (List.mem_cons_of_mem _ hmem)
      · rw [List.mem_singleton.mp hrow]
        exact hnodup.1

theorem foldl_insertItem_again {id : String} {items : List ItemRow} {rows : List ImportDifference}
    (h : ∀ item ∈ rows, ∃ row ∈ items, row.reportId = id ∧ row.item.key = item.key) :
    rows.foldl (insertItem id) items = items := by
  induction rows with
  | nil => rfl
  | cons item rows ih =>
    obtain ⟨row, hrow, hid, hkey⟩ := h item List.mem_cons_self
    have hany : items.any (fun row => row.reportId = id && row.item.key = item.key) = true :=
      List.any_eq_true.mpr ⟨row, hrow, by simp [hid, hkey]⟩
    rw [List.foldl_cons, insertItem, if_pos hany]
    exact ih fun item hitem => h item (List.mem_cons_of_mem _ hitem)

theorem mem_itemsOf {id : String} {db : ReconcileDb} {d : ImportDifference} :
    d ∈ itemsOf id db ↔ ∃ row ∈ db.items, row.reportId = id ∧ row.item = d := by
  simp [itemsOf, and_assoc]

/-! ## What a run keeps -/

/-- What is known of the two imports when they are sealed, and of their differences. -/
structure Compares (env : ReconcileEnv) (c : Comparison) (s₀ : ReconcileDb) (ds : List ImportDifference) : Prop where
  rows : (differenceRows env.collation (c.entries c.candidateId s₀) (c.entries c.baselineId s₀)).Perm ds
  ascending : Ascending ds
  keys : ∀ d ∈ ds, "" < d.key
  apart : c.duplicate s₀ = none
  size : ds.length ≤ (c.sizes s₀).1 + (c.sizes s₀).2

/-- The report on the differences. -/
def finalReport (env : ReconcileEnv) (c : Comparison) (s₀ : ReconcileDb) (ds : List ImportDifference) :
    CatalogReconciliationReport :=
  c.report env (c.sizes s₀) (fun kind => ds.countP (·.kind = kind)) (hashed ds)

/-- The rows are written. -/
def Inserted (c : Comparison) (ds : List ImportDifference) (s : ReconcileDb) : Prop := (itemsOf c.reportId s).Perm ds

/-- The imports are those of the start, and what is there of the report is right. -/
structure Sound (env : ReconcileEnv) (c : Comparison) (s₀ : ReconcileDb) (ds : List ImportDifference) (s : ReconcileDb) : Prop where
  imports id (hid : id = c.candidateId ∨ id = c.baselineId) : s.imports.find? (·.id = id) = s₀.imports.find? (·.id = id)
  entries id (hid : id = c.candidateId ∨ id = c.baselineId) : entryList id s = entryList id s₀
  items : itemsOf c.reportId s = [] ∨ Inserted c ds s
  reports : ∀ row ∈ s.reports, row.id = c.reportId → ∀ report, row.report = some report →
    report = finalReport env c s₀ ds ∧ Inserted c ds s

/-- Rows that are written stay. -/
def Grows (c : Comparison) (ds : List ImportDifference) (s s' : ReconcileDb) : Prop := Inserted c ds s → Inserted c ds s'

instance (c : Comparison) (ds : List ImportDifference) : Std.Refl (Grows c ds) := ⟨fun _ h => h⟩

instance (c : Comparison) (ds : List ImportDifference) : IsTrans ReconcileDb (Grows c ds) := ⟨fun _ _ _ h h' hi => h' (h hi)⟩

/-- What others do leaves the two imports and the report alone. -/
structure Elsewhere (c : Comparison) (s s' : ReconcileDb) : Prop where
  imports id (hid : id = c.candidateId ∨ id = c.baselineId) : s'.imports.find? (·.id = id) = s.imports.find? (·.id = id)
  entries id (hid : id = c.candidateId ∨ id = c.baselineId) :
    s'.entries.filter (fun row => row.importId = id) = s.entries.filter fun row => row.importId = id
  items : s'.items.filter (fun row => row.reportId = c.reportId) = s.items.filter fun row => row.reportId = c.reportId
  reports : s'.reports.filter (fun row => row.id = c.reportId) = s.reports.filter fun row => row.id = c.reportId

section
variable {env : ReconcileEnv} {c : Comparison} {s₀ s s' : ReconcileDb} {ds : List ImportDifference}

theorem Elsewhere.itemsOf_eq (h : Elsewhere c s s') : itemsOf c.reportId s' = itemsOf c.reportId s := by
  unfold itemsOf
  rw [h.items]

theorem Elsewhere.sound (h : Elsewhere c s s') (hi : Sound env c s₀ ds s) : Sound env c s₀ ds s' ∧ Grows c ds s s' := by
  have hgrows : Grows c ds s s' := fun hins => by rwa [Inserted, h.itemsOf_eq]
  refine ⟨⟨fun id hid => (h.imports id hid).trans (hi.imports id hid), fun id hid => ?_, ?_, ?_⟩, hgrows⟩
  · rw [← hi.entries id hid, entryList, h.entries id hid, entryList]
  · rw [h.itemsOf_eq]
    exact hi.items.imp_right hgrows
  · intro row hrow hid report hreport
    have hmem : row ∈ s.reports.filter fun row => row.id = c.reportId :=
      h.reports ▸ List.mem_filter.mpr ⟨hrow, decide_eq_true hid⟩
    obtain ⟨hfinal, hins⟩ := hi.reports row (List.mem_of_mem_filter hmem) hid report hreport
    exact ⟨hfinal, hgrows hins⟩

theorem Sound.entries_eq (hi : Sound env c s₀ ds s) {id : String} (hid : id = c.candidateId ∨ id = c.baselineId) :
    c.entries id s = c.entries id s₀ := by
  rw [Comparison.entries, hi.entries id hid, Comparison.entries]

theorem Sound.sizes_eq (hi : Sound env c s₀ ds s) : c.sizes s = c.sizes s₀ := by
  rw [Comparison.sizes, hi.entries_eq (.inl rfl), hi.entries_eq (.inr rfl), Comparison.sizes]

theorem Sound.duplicate_eq (hi : Sound env c s₀ ds s) : c.duplicate s = c.duplicate s₀ := by
  unfold Comparison.duplicate
  rw [hi.entries_eq (.inl rfl), hi.entries_eq (.inr rfl)]

theorem Sound.insertPending (hi : Sound env c s₀ ds s) : Sound env c s₀ ds (insertPending c.reportId s) := by
  unfold Reconciliation.insertPending
  split
  · exact hi
  · refine ⟨hi.imports, hi.entries, hi.items, fun row hrow hid report hreport => ?_⟩
    rcases List.mem_append.mp hrow with hrow | hrow
    · exact hi.reports row hrow hid report hreport
    · rw [List.mem_singleton.mp hrow] at hreport
      cases hreport

/-- After the statement the rows are there, whether it wrote them or found them. -/
theorem Sound.insertDifferences (hi : Sound env c s₀ ds s) (h : Compares env c s₀ ds) :
    Sound env c s₀ ds (c.insertDifferences env s) ∧ Inserted c ds (c.insertDifferences env s) := by
  have hins : Inserted c ds (c.insertDifferences env s) := by
    unfold Comparison.insertDifferences Inserted
    rw [hi.entries_eq (.inl rfl), hi.entries_eq (.inr rfl)]
    simp only
    have hrows := h.rows
    generalize differenceRows env.collation (c.entries c.candidateId s₀) (c.entries c.baselineId s₀) = rows at hrows
    rcases hi.items with hnone | hins
    · have hfresh : ∀ row ∈ s.items, row.reportId = c.reportId → row.item.key ∉ rows.map (·.key) := by
        intro row hrow hid
        have hmem : row.item ∈ itemsOf c.reportId s := mem_itemsOf.mpr ⟨row, hrow, hid, rfl⟩
        rw [hnone] at hmem
        cases hmem
      have hnodup : (rows.map (·.key)).Nodup := (hrows.map _).nodup_iff.mpr h.ascending.nodup
      rw [foldl_insertItem_fresh hfresh hnodup]
      have hitems : itemsOf c.reportId { s with items := s.items ++ rows.map fun item => ⟨c.reportId, item⟩ } =
          itemsOf c.reportId s ++ rows := by
        simp [itemsOf, List.filter_map, Function.comp_def]
      rw [hitems, hnone, List.nil_append]
      exact hrows
    · have hagain : ∀ item ∈ rows, ∃ row ∈ s.items, row.reportId = c.reportId ∧ row.item.key = item.key := by
        intro item hitem
        obtain ⟨row, hrow, hid, hsame⟩ := mem_itemsOf.mp (hins.mem_iff.mpr (hrows.mem_iff.mp hitem))
        exact ⟨row, hrow, hid, congrArg _ hsame⟩
      rw [foldl_insertItem_again hagain]
      exact hins
  refine ⟨⟨hi.imports, hi.entries, .inr hins, fun row hrow hid report hreport => ?_⟩, hins⟩
  exact ⟨(hi.reports row hrow hid report hreport).1, hins⟩

/-- The last batch does not fail, and seals the report on the differences. -/
theorem Sound.sealing (hi : Sound env c s₀ ds s) (hins : Inserted c ds s) : ∃ s' ns,
    Sql.runAll (c.sealing (finalReport env c s₀ ds)) s 0 = .ok (s', ns) ∧ Sound env c s₀ ds s' ∧ Inserted c ds s' := by
  have hcount : (itemsOf c.reportId s).length = (finalReport env c s₀ ds).differences :=
    hins.length_eq.trans (hashed_text ds).1.symm
  unfold Comparison.sealing
  simp only [Sql.runAll, hcount, if_true, Fallible.ok_bind]
  refine ⟨_, _, rfl, ⟨hi.imports, hi.entries, hi.items, fun row hrow hid report hreport => ?_⟩, hins⟩
  obtain ⟨old, hold, rfl⟩ := Sql.mem_update.mp hrow
  split at hreport
  · cases hreport
    exact ⟨rfl, hins⟩
  · next hkept =>
    rw [if_neg hkept] at hid
    obtain ⟨hfinal, -⟩ := hi.reports old hold hid report hreport
    exact ⟨hfinal, hins⟩

/-! ## A run -/

/-- What a run of this comparison does beside others. -/
abbrev Reconciles {α : Type} (env : ReconcileEnv) (c : Comparison) (s₀ : ReconcileDb) (ds : List ImportDifference)
    (Q : α → ReconcileDb → Prop) (p : Prog ReconcileDb PolicyError α) (s : ReconcileDb) : Prop :=
  Succeeds (Sound env c s₀ ds) (fun _ _ => True) (Grows c ds) (Grows c ds) Q p s

theorem itemPage_eq (h : Ascending ds) (hins : Inserted c ds s) (cursor : String) :
    itemPage c.reportId cursor s = (ds.filter fun d => cursor < d.key).take 250 := by
  unfold itemPage
  rw [mergeSort_items (hins.filter _) (h.filter _)]

/-- The pages that are left, from a cursor that stands between two parts of the list. -/
theorem hashItems_reconciles (h : Ascending ds) {fuel : Nat} {cursor : String} {done rest : List ImportDifference}
    (hsplit : ds = done ++ rest) (hrest : (ds.filter fun d => cursor < d.key) = rest) (hfuel : rest.length < fuel)
    (hins : Inserted c ds s) : Reconciles env c s₀ ds (fun state s => state = hashed ds ∧ Inserted c ds s)
      (hashItems c.reportId fuel cursor (hashed done)) s := by
  induction fuel generalizing cursor done rest s with
  | zero => exact absurd hfuel (Nat.not_lt_zero _)
  | succ fuel ih =>
    refine succeeds_read_bind fun s' _ hgrows => ?_
    rw [itemPage_eq h (hgrows hins), hrest]
    split
    · next hnone =>
      have hnil : rest = [] := by
        rcases rest with _ | ⟨d, rest⟩
        · rfl
        · simp at hnone
      rw [hnil, List.append_nil] at hsplit
      intro s'' _ hgrows'
      exact ⟨by rw [hsplit], hgrows' (hgrows hins)⟩
    · next last hlast =>
      obtain ⟨before, htake, hpage⟩ := Paging.take_of_getLast? hlast
      have hafter : ds = (done ++ before) ++ last :: rest.drop 250 := by rw [List.append_assoc, ← hpage, hsplit]
      have hshort : (rest.drop 250).length < fuel := by
        have hlen := congrArg List.length hpage
        rw [List.length_append, List.length_cons] at hlen
        omega
      rw [← hashed_append]
      refine ih ?_ (filter_after h hafter) hshort (hgrows hins)
      rw [List.append_assoc, List.take_append_drop, hsplit]

theorem prepare_reconciles (h : Compares env c s₀ ds) (s : ReconcileDb) :
    Reconciles env c s₀ ds (fun report s => report = finalReport env c s₀ ds ∧ Inserted c ds s) (c.prepare env) s := by
  intro s₁ hi₁ _ _
  have hi₁' := hi₁.insertPending
  refine ⟨hi₁', fun hins => ?_, ?_⟩
  · unfold Reconciliation.insertPending
    split
    · exact hins
    · exact hins
  refine succeeds_read_bind fun s₂ hi₂ _ => ?_
  rw [hi₂.duplicate_eq, h.apart]
  intro s₃ hi₃ _ _
  obtain ⟨hi₃', hins₃⟩ := hi₃.insertDifferences h
  refine ⟨hi₃', fun _ => hins₃, ?_⟩
  refine succeeds_read_bind fun s₄ hi₄ hgrows₄ => ?_
  have hins₄ := hgrows₄ hins₃
  have hcounts : c.countKinds s₄ = fun kind => ds.countP (·.kind = kind) := funext fun kind => hins₄.countP_eq _
  rw [hcounts]
  refine succeeds_read_bind fun s₅ hi₅ hgrows₅ => ?_
  rw [hi₅.sizes_eq]
  have hall : (ds.filter fun d => "" < d.key) = ds := List.filter_eq_self.mpr fun d hd => decide_eq_true (h.keys d hd)
  have hpages : Reconciles env c s₀ ds (fun state s => state = hashed ds ∧ Inserted c ds s)
      (hashItems c.reportId ((c.sizes s₀).1 + (c.sizes s₀).2 + 1) "" (hashed [])) s₅ :=
    hashItems_reconciles h.ascending (List.nil_append ds).symm hall (Nat.lt_succ_of_le h.size) (hgrows₅ hins₄)
  refine succeeds_bind hi₅ hpages fun state s₆ hi₆ hstate => ?_
  obtain ⟨rfl, hins₆⟩ := hstate
  intro s₇ hi₇ hgrows₇ _
  obtain ⟨s₈, ns, hrun, hi₈, hins₈⟩ := hi₇.sealing (hgrows₇ hins₆)
  have hbatch : Sql.batch (c.sealing (c.report env (c.sizes s₀) (fun kind => ds.countP (·.kind = kind)) (hashed ds))) s₇ =
      (.ok ns, s₈) := by
    rw [finalReport] at hrun
    rw [Sql.batch, hrun]
  simp only [hbatch]
  exact ⟨hi₈, fun _ => hins₈, fun s₉ _ hgrows₉ => ⟨rfl, hgrows₉ hins₈⟩⟩

/-- An import that takes no more entries. -/
def Sealed (id : String) (manifest : ImportManifest) (s : ReconcileDb) : Prop :=
  ∃ status, status ≠ .capturing ∧ s.imports.find? (·.id = id) = some ⟨id, status, manifest⟩

/-- What a run ends with: the report on the differences, or the refusal of who asked for it. -/
def Answers (env : ReconcileEnv) (c : Comparison) (s₀ : ReconcileDb) (ds : List ImportDifference)
    (answer : Except PolicyError CatalogReconciliationReport) (s : ReconcileDb) : Prop :=
  (answer = .ok (finalReport env c s₀ ds) ∧ Inserted c ds s) ∨
    ∃ actor e, humanMaintainer actor "system" = .error e ∧ answer = .error e

theorem getCatalogImport_reconciles {α : Type} {Q : α → ReconcileDb → Prop} {importId : String} {manifest : ImportManifest}
    (hid : importId = c.candidateId ∨ importId = c.baselineId) (hsealed : Sealed importId manifest s₀)
    {f : ImportRow → Prog ReconcileDb PolicyError α}
    (hf : ∀ status s, status ≠ .capturing → Reconciles env c s₀ ds Q (f ⟨importId, status, manifest⟩) s) :
    Reconciles env c s₀ ds Q (getCatalogImport importId >>= f) s := by
  obtain ⟨status, hstatus, hrow⟩ := hsealed
  intro s' hi _ _
  refine ⟨hi, fun hins => hins, ?_⟩
  have hfound := (hi.imports importId hid).trans hrow
  change Reconciles env c s₀ ds Q (Prog.bind (ofExcept _) f) s'
  beta_reduce
  rw [hfound]
  exact hf status s' hstatus

theorem readyReport_sound (hi : Sound env c s₀ ds s) {report : CatalogReconciliationReport}
    (h : readyReport c.reportId s = some report) : report = finalReport env c s₀ ds ∧ Inserted c ds s := by
  obtain ⟨row, hrow, hreport⟩ := List.exists_of_findSome?_eq_some h
  split at hreport
  · next hid => exact hi.reports row hrow hid report hreport
  · cases hreport

/-- A run of whoever asks: it reports the differences, or refuses who asked. -/
theorem reconcile_keeps {candidateId baselineId : String} {candidate baseline : ImportManifest}
    (hc : c = comparisonOf env candidateId baselineId candidate baseline) (h : Compares env c s₀ ds)
    (hne : candidateId ≠ baselineId) (hcandidate : Sealed candidateId candidate s₀) (hbaseline : Sealed baselineId baseline s₀)
    (hscope : inScope baseline (scopeOf candidate) = true) (actor : Option Actor) (s : ReconcileDb) :
    Keeps (Sound env c s₀ ds) (fun _ _ => True) (Grows c ds) (Grows c ds) (Answers env c s₀ ds)
      ((reconcileCatalogImports env actor candidateId baselineId).attempt :
        Prog ReconcileDb PolicyError (Except PolicyError CatalogReconciliationReport)) s := by
  subst hc
  unfold reconcileCatalogImports
  cases hactor : humanMaintainer actor "system" with
  | error e => exact fun s' _ _ => .inr ⟨actor, e, hactor, rfl⟩
  | ok reviewer =>
    rw [ofExcept_ok_bind, if_neg hne]
    refine keeps_mono (fun answer s hanswer => ?_) (Succeeds.attempt (Q := fun report s =>
      report = finalReport env (comparisonOf env candidateId baselineId candidate baseline) s₀ ds ∧
        Inserted (comparisonOf env candidateId baselineId candidate baseline) ds s) ?_)
    · obtain ⟨report, rfl, rfl, hins⟩ := hanswer
      exact .inl ⟨rfl, hins⟩
    refine getCatalogImport_reconciles (.inl rfl) hcandidate fun status _ hstatus => ?_
    refine getCatalogImport_reconciles (.inr rfl) hbaseline fun status' _ hstatus' => ?_
    rw [if_neg (not_or.mpr ⟨hstatus, hstatus'⟩), if_neg (by rw [hscope]; exact Bool.false_ne_true.symm)]
    refine succeeds_read_bind fun s₂ hi₂ _ => ?_
    split
    · next report hready =>
      obtain ⟨hfinal, hins⟩ := readyReport_sound hi₂ hready
      exact fun s₃ _ hgrows => ⟨hfinal, hgrows hins⟩
    · exact prepare_reconciles h s₂

/-- Runs of one comparison, by anyone. -/
def Requests (env : ReconcileEnv) (candidateId baselineId : String) (_ : Nat)
    (p : Prog ReconcileDb PolicyError (Except PolicyError CatalogReconciliationReport)) : Prop :=
  ∃ actor, p = (reconcileCatalogImports env actor candidateId baselineId).attempt

end

/-! ## The differences of sealed imports -/

/-- Two entries of an import have no key in common. -/
def Apart (c : Comparison) (importId : String) (s : ReconcileDb) : Prop := ((c.entries importId s).map packageKey).Nodup

section
variable {env : ReconcileEnv} {c : Comparison} {s : ReconcileDb}

theorem repeated_none {entries : List ImportEntry} (h : (entries.map packageKey).Nodup) :
    (entries.find? fun e => 1 < entries.countP fun e' =>
      e'.collection = e.collection && e'.target = e.target && e'.name = e.name) = none := by
  rw [List.find?_eq_none]
  intro e _ hmany
  have hle : (entries.countP fun e' => e'.collection = e.collection && e'.target = e.target && e'.name = e.name) ≤
      entries.countP (packageKey · = packageKey e) := by
    refine List.countP_mono_left fun e' _ hsame => ?_
    simp only [Bool.and_eq_true, decide_eq_true_eq] at hsame
    simp [packageKey, hsame]
  have hone : entries.countP (packageKey · = packageKey e) ≤ 1 := by
    rw [List.countP_eq_length_filter, filter_key h]
    cases get entries (packageKey e) <;> simp
  have := of_decide_eq_true hmany
  omega

/-- The texts that are put into a key. -/
theorem keyTexts_ascii : ∀ s ∈ ["@._+-", "core", "extra", "multilib", "omarchy", "omapkg", "x86_64", "aarch64"],
    ∀ ch ∈ s.toList, ch.toNat < 128 := by
  have hall : ∀ s ∈ ["@._+-", "core", "extra", "multilib", "omarchy", "omapkg", "x86_64", "aarch64"],
      (s.toList.all fun ch => ch.toNat < 128) = true := by decide +kernel
  exact fun s hs ch hch => of_decide_eq_true (List.all_eq_true.mp (hall s hs) ch hch)

theorem isNameChar_ascii {ch : Char} (h : Arch.isNameChar ch = true) : ch.toNat < 128 := by
  simp only [Arch.isNameChar, Arch.isLowerAlnum, Bool.or_eq_true, Bool.and_eq_true, decide_eq_true_eq] at h
  rcases h with (⟨-, hz⟩ | ⟨-, h9⟩) | hpunctuation
  · exact lt_of_le_of_lt (show ch.toNat ≤ 'z'.toNat from hz) (by decide)
  · exact lt_of_le_of_lt (show ch.toNat ≤ '9'.toNat from h9) (by decide)
  · exact keyTexts_ascii "@._+-" (by simp) ch (List.contains_iff_mem.mp hpunctuation)

theorem name_ascii {name : List Char} (h : Arch.isPackageName name = true) : ∀ ch ∈ name, ch.toNat < 128 := by
  rcases name with _ | ⟨first, rest⟩
  · simp
  · simp only [Arch.isPackageName, Arch.isWord, Bool.and_eq_true, List.all_eq_true] at h
    intro ch hch
    rcases List.mem_cons.mp hch with rfl | hch
    · exact isNameChar_ascii (by rw [Arch.isNameChar, h.1.1, Bool.true_or])
    · exact isNameChar_ascii (h.1.2 ch hch)

theorem key_ascii {entry : ImportEntry} (h : Arch.isPackageName entry.name.toList = true) :
    ∀ ch ∈ (packageKey entry).toList, ch.toNat < 128 := by
  have hcollection : ∀ r : RepositoryName, ∀ ch ∈ r.text.toList, ch.toNat < 128 := fun r => by
    cases r <;> exact keyTexts_ascii _ (by simp [RepositoryName.text])
  have htarget : ∀ a : Architecture, ∀ ch ∈ a.text.toList, ch.toNat < 128 := fun a => by
    cases a <;> exact keyTexts_ascii _ (by simp [Architecture.text])
  have hslash : ∀ {l : List Char}, (∀ ch ∈ l, ch.toNat < 128) → ∀ ch ∈ '/' :: l, ch.toNat < 128 :=
    fun hl => List.forall_mem_cons.mpr ⟨by decide, hl⟩
  rw [packageKey_toList]
  exact List.forall_mem_append.mpr ⟨hcollection _, hslash (List.forall_mem_append.mpr ⟨htarget _, hslash (name_ascii h)⟩)⟩

theorem key_pos (entry : ImportEntry) : "" < packageKey entry := by
  rw [String.lt_iff_toList_lt, packageKey_toList]
  cases entry.collection <;> exact List.nil_lt_cons _ _

/-- Keys without repetitions ascend once they are sorted. -/
theorem sorted_ascending {keys : List String} (hkeys : ∀ k ∈ keys, ∀ ch ∈ k.toList, ch.toNat < 128) (hnodup : keys.Nodup) :
    (sorted keys).Pairwise (· < ·) := by
  have hnodup' : (sorted keys).Nodup := (sorted_perm keys).nodup_iff.mpr hnodup
  refine (List.Pairwise.and_mem.mp ((sorted_pairwise keys).and hnodup')).imp fun h => ?_
  obtain ⟨ha, hb, hle, hne⟩ := h
  exact lt_of_le_of_ne ((unitsLE_iff_le (hkeys _ (mem_sorted.mp ha)) (hkeys _ (mem_sorted.mp hb))).mp hle) hne

/-- What the comparison lists of the imports that a run starts with. -/
theorem compares (env : ReconcileEnv) (c : Comparison) (hcandidate : Apart c c.candidateId s) (hbaseline : Apart c c.baselineId s)
    (hnames : ∀ row ∈ s.entries, Arch.isPackageName row.entry.name.toList = true) :
    ∃ ds, compareImportEntries (c.entries c.candidateId s) (c.entries c.baselineId s) c.scope = .ok ds ∧
      Compares env c s ds := by
  have hselected : ∀ id, ∀ e ∈ c.entries id s, c.scope.contains e.collection = true ∧
      Arch.isPackageName e.name.toList = true := by
    intro id e he
    obtain ⟨hmem, hselects⟩ := List.mem_filter.mp he
    obtain ⟨row, hrow, rfl⟩ := List.mem_map.mp hmem
    exact ⟨(Bool.and_eq_true_iff.mp hselects).1, hnames row (List.mem_of_mem_filter hrow)⟩
  have hscope : ∀ e ∈ c.entries c.candidateId s ++ c.entries c.baselineId s, c.scope.contains e.collection = true :=
    List.forall_mem_append.mpr ⟨fun e he => (hselected _ e he).1, fun e he => (hselected _ e he).1⟩
  have hkeys : ∀ k ∈ ((c.entries c.candidateId s).map packageKey ++ (c.entries c.baselineId s).map packageKey).dedup,
      ∃ e, Arch.isPackageName e.name.toList = true ∧ packageKey e = k := by
    intro k hk
    rw [List.mem_dedup, ← List.map_append] at hk
    obtain ⟨e, he, rfl⟩ := List.mem_map.mp hk
    rcases List.mem_append.mp he with he | he
    · exact ⟨e, (hselected _ e he).2, rfl⟩
    · exact ⟨e, (hselected _ e he).2, rfl⟩
  refine ⟨_, compareImportEntries_ok hscope hcandidate hbaseline, ?_, ?_, ?_, ?_, ?_⟩
  · exact differenceRows_perm hcandidate hbaseline
  · refine List.Pairwise.filterMap _ (fun k k' hlt d hd d' hd' => ?_) (sorted_ascending ?_ (List.nodup_dedup _))
    · rw [difference_key hd, difference_key hd']
      exact hlt
    · intro k hk
      obtain ⟨e, hname, rfl⟩ := hkeys k hk
      exact key_ascii hname
  · intro d hd
    obtain ⟨k, hk, hdifference⟩ := List.mem_filterMap.mp hd
    obtain ⟨e, -, rfl⟩ := hkeys k (mem_sorted.mp hk)
    rw [difference_key hdifference]
    exact key_pos e
  · unfold Comparison.duplicate
    simp only [repeated_none hcandidate, repeated_none hbaseline, Option.or_none, Option.map_none]
  · calc _ ≤ (sorted _).length := List.length_filterMap_le _ _
      _ = _ := (sorted_perm _).length_eq
      _ ≤ _ := List.Sublist.length_le (List.dedup_sublist _)
      _ = _ := by rw [List.length_append, List.length_map, List.length_map]; rfl

/-- The rows of a report in the order of their keys. -/
def stored (c : Comparison) (s : ReconcileDb) : List ImportDifference := (itemsOf c.reportId s).mergeSort keyLE

/-- No run of the comparison has written anything. -/
structure Untouched (c : Comparison) (s : ReconcileDb) : Prop where
  items : itemsOf c.reportId s = []
  reports : ∀ row ∈ s.reports, row.id ≠ c.reportId

theorem Untouched.sound {ds : List ImportDifference} (h : Untouched c s) : Sound env c s ds s :=
  ⟨fun _ _ => rfl, fun _ _ => rfl, .inl h.items, fun row hrow hid => absurd hid (h.reports row hrow)⟩

end

/-- What a report tells of a list of differences. -/
structure Reports (env : ReconcileEnv) (report : CatalogReconciliationReport) (ds : List ImportDifference) : Prop where
  differences : report.differences = ds.length
  counts kind : report.counts kind = ds.countP (·.kind = kind)
  itemsSha256 : report.itemsSha256 = env.sha256 (canonicalJson (.arr (ds.map (·.json))))

/-- Texts by their units. -/
def unitsCollation : Collation where
  le a b := decide (KeyLE a b)
  total a b := by
    rw [Bool.or_eq_true]
    exact (le_total (α := List Nat) _ _).imp decide_eq_true decide_eq_true
  trans a b c hab hbc := decide_eq_true (le_trans (α := List Nat) (of_decide_eq_true hab) (of_decide_eq_true hbc))
  antisymm a b hab hba := map_toNat_injective (le_antisymm (α := List Nat) (of_decide_eq_true hab) (of_decide_eq_true hba))

def sampleEnv : ReconcileEnv := ⟨String.ofList, fun _ => none, unitsCollation⟩

/-- An import of one source. -/
def sampleManifest : ImportManifest :=
  ⟨.arch, "upstream", [⟨"core", units "https://a.b/", .core, .x86_64, true, none, 1, .verified, none⟩]⟩

def sampleEntry (version : String) : ImportEntry where
  name := "zlib"
  version := version
  architecture := .x86_64
  target := .x86_64
  collection := .core
  sha256 := "00"
  licenses := []
  dependencies := []
  makeDependencies := []
  checkDependencies := []
  provides := []
  conflicts := []
  replaces := []
  surface := none

def sampleDb : ReconcileDb where
  imports := [⟨"new", .captured, sampleManifest⟩, ⟨"old", .captured, sampleManifest⟩]
  entries := [⟨"new", sampleEntry "1.3-1"⟩, ⟨"old", sampleEntry "1.2-1"⟩]
  reports := []
  items := []

def sampleReviewer : Actor := ⟨"github:7", .admin, []⟩

/-- Two runs that take turns; the first stops after a few steps. -/
def sampleRun : Pool ReconcileDb PolicyError (Except PolicyError CatalogReconciliationReport) :=
  ((((⟨sampleDb, []⟩ : Pool ReconcileDb PolicyError (Except PolicyError CatalogReconciliationReport)).starting
    (reconcileCatalogImports sampleEnv (some sampleReviewer) "new" "old").attempt).starting
    (reconcileCatalogImports sampleEnv (some sampleReviewer) "new" "old").attempt).turns
      [0, 1, 0, 1, 0, 1, 0, 1, 0, 1, 0, 1, 1, 1, 1, 1, 1])

end Omapkg.Server.Reconciliation
