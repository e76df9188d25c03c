import Omapkg.Lib.Fallible
import Omapkg.Server.OwnedResume
/-!
# Merging owned packages

What `mergeRecords` makes of the current packages and those of the parent. A
package of any architecture goes to both targets, where it replaces whatever
has its name, another current package included.
-/

namespace Omapkg.Server.Owned

open Fallible

/-! ## Maps -/

namespace JsMap

variable {α : Type}

def keys (m : JsMap α) : List String := m.map (·.1)

theorem get_cons (e : String × α) (m : JsMap α) (k : String) :
    JsMap.get (e :: m) k = if e.1 = k then some e.2 else JsMap.get m k := by
  unfold JsMap.get
  rw [List.find?_cons]
  by_cases h : e.1 = k <;> simp [h]

theorem get_append (m n : JsMap α) (k : String) : JsMap.get (m ++ n) k = (JsMap.get m k).or (JsMap.get n k) := by
  induction m with
  | nil => rfl
  | cons e m ih =>
    rw [List.cons_append, get_cons, get_cons, ih]
    split
    · rfl
    · rfl

theorem get_eq_none {m : JsMap α} {k : String} : JsMap.get m k = none ↔ ∀ e ∈ m, e.1 ≠ k := by
  simp [JsMap.get]

/-- Replacing the entry of a key. -/
theorem get_map (m : JsMap α) (key : String) (value : α) (k : String) :
    JsMap.get (m.map fun e => if e.1 = key then (key, value) else e) k =
      if k = key then (JsMap.get m key).map fun _ => value else JsMap.get m k := by
  induction m with
  | nil => simp [JsMap.get]
  | cons e m ih =>
    rw [List.map_cons, get_cons, ih, get_cons, get_cons]
    by_cases he : e.1 = key
    · by_cases hk : k = key
      · simp [he, hk]
      · have hkey : ¬key = k := fun h => hk h.symm
        simp [he, hk, hkey]
    · by_cases hk : k = key
      · simp [he, hk]
      · simp [he, hk]

theorem get_set (m : JsMap α) (key : String) (value : α) (k : String) :
    JsMap.get (JsMap.set m key value) k = if k = key then some value else JsMap.get m k := by
  unfold JsMap.set
  split
  · rename_i hany
    rw [get_map]
    cases hget : JsMap.get m key with
    | some v => rfl
    | none =>
      obtain ⟨e, he, hek⟩ := List.any_eq_true.mp hany
      exact absurd (by simpa using hek) (get_eq_none.mp hget e he)
  · rename_i hany
    rw [get_append]
    by_cases hk : k = key
    · subst hk
      have hnone : JsMap.get m k = none :=
        get_eq_none.mpr fun e he hek => hany (List.any_eq_true.mpr ⟨e, he, by simpa using hek⟩)
      rw [hnone, get_cons]
      simp
    · have hkey : ¬key = k := fun h => hk h.symm
      rw [get_cons, if_neg hkey, if_neg hk]
      simp [JsMap.get]

theorem get_delete (m : JsMap α) (key k : String) :
    JsMap.get (JsMap.delete m key) k = if k = key then none else JsMap.get m k := by
  unfold JsMap.delete
  induction m with
  | nil => simp [JsMap.get]
  | cons e m ih =>
    rw [List.filter_cons, get_cons]
    by_cases he : e.1 = key
    · have hd : ¬decide (e.1 ≠ key) = true := by simpa using he
      rw [if_neg hd, ih]
      by_cases hk : k = key
      · rw [if_pos hk, if_pos hk]
      · rw [if_neg hk, if_neg hk, if_neg fun h => hk (h.symm.trans he)]
    · have hd : decide (e.1 ≠ key) = true := by simpa using he
      rw [if_pos hd, get_cons, ih]
      by_cases hk : k = key
      · subst hk
        rw [if_neg he, if_pos rfl, if_pos rfl]
      · rw [if_neg hk, if_neg hk]

theorem keys_set (m : JsMap α) (key : String) (value : α) :
    (m.set key value).keys = if key ∈ m.keys then m.keys else m.keys ++ [key] := by
  have hany : m.any (·.1 = key) = true ↔ key ∈ m.keys := by simp [keys]
  unfold JsMap.set
  by_cases h : key ∈ m.keys
  · rw [if_pos (hany.mpr h), if_pos h, keys, List.map_map]
    refine List.map_congr_left fun e _ => ?_
    by_cases he : e.1 = key <;> simp [he]
  · rw [if_neg (fun h' => h (hany.mp h')), if_neg h]
    simp [keys]

theorem nodup_set {m : JsMap α} (h : m.keys.Nodup) (key : String) (value : α) : (m.set key value).keys.Nodup := by
  rw [keys_set]
  split
  · exact h
  · rename_i hk
    rw [List.nodup_append]
    exact ⟨h, List.nodup_singleton _, fun a ha b hb hab => hk (by rw [← List.mem_singleton.mp hb, ← hab]; exact ha)⟩

theorem nodup_delete {m : JsMap α} (h : m.keys.Nodup) (key : String) : (m.delete key).keys.Nodup :=
  h.sublist (List.filter_sublist.map _)

/-- With no key twice, the entries are what is read back. -/
theorem mem_iff_get {m : JsMap α} (h : m.keys.Nodup) {k : String} {v : α} : (k, v) ∈ m ↔ JsMap.get m k = some v := by
  induction m with
  | nil => simp [JsMap.get]
  | cons e m ih =>
    obtain ⟨hne, hm⟩ := List.nodup_cons.mp h
    rw [get_cons, List.mem_cons, ih hm]
    by_cases he : e.1 = k
    · subst he
      have hnone : JsMap.get m e.1 = none := get_eq_none.mpr fun e' he' heq => hne (List.mem_map.mpr ⟨e', he', heq⟩)
      obtain ⟨k, v'⟩ := e
      simp only [hnone, if_true, Option.some.injEq, Prod.mk.injEq, true_and, reduceCtorEq, or_false]
      exact eq_comm
    · have hek : (k, v) ≠ e := fun heq => he (by rw [← heq])
      simp [he, hek]

end JsMap

/-! ## Keys -/

theorem targetKey_inj {t t' : Architecture} {a b : String} (h : targetKey t a = targetKey t' b) : t = t' ∧ a = b := by
  have hl := congrArg String.toList h
  simp only [targetKey, String.toList_append, toString] at hl
  cases t <;> cases t' <;> simp [Architecture.text] at hl
  · exact ⟨rfl, String.toList_injective hl⟩
  · exact ⟨rfl, String.toList_injective hl⟩

/-- The targets a package is for. -/
def PackageRecord.targets (record : PackageRecord) : List Architecture :=
  if record.architecture = .any then [.x86_64, .aarch64] else [record.targetArchitecture]

/-- A package as it stands on a target. -/
def PackageRecord.on (record : PackageRecord) (target : Architecture) : PackageRecord :=
  { record with targetArchitecture := target }

/-- Whether one of the packages stands for a name on a target. -/
def Replaced (current : List PackageRecord) (key : String) : Prop :=
  ∃ record ∈ current, ∃ target ∈ record.targets, targetKey target record.name = key

/-! ## Steps -/

/-- The packages by name are read back by their own keys. -/
structure Keyed (m : JsMap PackageRecord) : Prop where
  nodup : m.keys.Nodup
  own : ∀ key record, m.get key = some record → record.nameKey = key

theorem keyed_nil : Keyed [] := ⟨List.nodup_nil, fun _ _ h => nomatch h⟩

theorem Keyed.set {m : JsMap PackageRecord} (h : Keyed m) (record : PackageRecord) :
    Keyed (m.set record.nameKey record) where
  nodup := JsMap.nodup_set h.nodup _ _
  own := fun key record' hget => by
    rw [JsMap.get_set] at hget
    split_ifs at hget with hk
    · rw [hk, ← Option.some.inj hget]
    · exact h.own key record' hget

theorem Keyed.delete {m : JsMap PackageRecord} (h : Keyed m) (key : String) : Keyed (m.delete key) where
  nodup := JsMap.nodup_delete h.nodup key
  own := fun key' record hget => by
    rw [JsMap.get_delete] at hget
    split_ifs at hget
    exact h.own key' record hget

/-- What a step makes of the packages by name: `record` now stands on some
targets, where a package it replaced was of its collection. -/
structure Puts (record : PackageRecord) (targets : List Architecture) (m m' : JsMap PackageRecord) : Prop where
  keyed : Keyed m → Keyed m'
  put : ∀ target ∈ targets, m'.get (targetKey target record.name) = some (record.on target)
  kept : ∀ key, (∀ target ∈ targets, key ≠ targetKey target record.name) → m'.get key = m.get key
  collection : ∀ target ∈ targets, ∀ old, m.get (targetKey target record.name) = some old →
    old.collection = record.collection

theorem addParent_puts {m m' : Merged} {record : PackageRecord} (h : addParent m record = .ok m') :
    Puts record [record.targetArchitecture] m.byTargetName m'.byTargetName ∧ m.byTargetName.get record.nameKey = none := by
  obtain ⟨hnone, h⟩ := guard_ok.mp h
  obtain rfl := Except.ok.inj h
  have hfree : m.byTargetName.get record.nameKey = none := by
    simp only [not_or, Option.not_isSome_iff_eq_none] at hnone
    exact hnone.1
  refine ⟨⟨fun hk => hk.set record, ?_, ?_, ?_⟩, hfree⟩
  · intro target ht
    obtain rfl := List.mem_singleton.mp ht
    exact (JsMap.get_set _ _ _ _).trans (if_pos rfl)
  · intro key hkey
    exact (JsMap.get_set _ _ _ _).trans (if_neg (hkey _ (List.mem_singleton_self _)))
  · intro target ht old hold
    obtain rfl := List.mem_singleton.mp ht
    exact absurd (hfree.symm.trans hold) nofun

theorem addAny_puts {m m' : Merged} {record : PackageRecord} {target : Architecture}
    (h : addAny record m target = .ok m') : Puts record [target] m.byTargetName m'.byTargetName := by
  obtain ⟨hsame, h⟩ := guard_ok.mp h
  obtain rfl := Except.ok.inj h
  refine ⟨fun hk => (hk.delete _).set (record.on target), ?_, ?_, ?_⟩
  · intro target' ht
    obtain rfl := List.mem_singleton.mp ht
    exact (JsMap.get_set _ _ _ _).trans (if_pos rfl)
  · intro key hkey
    have hne := hkey _ (List.mem_singleton_self _)
    simp only [JsMap.get_set, JsMap.get_delete, if_neg hne]
  · intro target' ht old hold
    obtain rfl := List.mem_singleton.mp ht
    rw [hold] at hsame
    simpa using hsame

theorem Puts.trans {record : PackageRecord} {targets targets' : List Architecture} {m₁ m₂ m₃ : JsMap PackageRecord}
    (hdisjoint : ∀ t ∈ targets, t ∉ targets') (h : Puts record targets m₁ m₂) (h' : Puts record targets' m₂ m₃) :
    Puts record (targets ++ targets') m₁ m₃ where
  keyed := fun hk => h'.keyed (h.keyed hk)
  put := fun target ht => by
    rcases List.mem_append.mp ht with ht | ht
    · rw [h'.kept _ fun t ht' he => hdisjoint target ht (by rw [(targetKey_inj he).1]; exact ht')]
      exact h.put target ht
    · exact h'.put target ht
  kept := fun key hkey => by
    rw [h'.kept key fun t ht => hkey t (List.mem_append_right _ ht), h.kept key fun t ht => hkey t (List.mem_append_left _ ht)]
  collection := fun target ht old hold => by
    rcases List.mem_append.mp ht with ht | ht
    · exact h.collection target ht old hold
    · refine h'.collection target ht old ?_
      rw [h.kept _ fun t ht' he => hdisjoint t ht' ((targetKey_inj he).1 ▸ ht)]
      exact hold

theorem addCurrent_puts {m m' : Merged} {record : PackageRecord} (h : addCurrent m record = .ok m') :
    Puts record record.targets m.byTargetName m'.byTargetName := by
  obtain ⟨hsame, h⟩ := guard_ok.mp h
  obtain ⟨-, h⟩ := guard_ok.mp h
  unfold PackageRecord.targets
  split_ifs at h ⊢ with hany
  · obtain ⟨m₁, h₁, h⟩ := bind_ok.mp h
    obtain ⟨m₂, h₂, h⟩ := bind_ok.mp h
    obtain rfl := Except.ok.inj h
    exact (addAny_puts h₁).trans (by decide) (addAny_puts h₂)
  · obtain rfl := Except.ok.inj h
    refine ⟨fun hk => hk.set record, ?_, ?_, ?_⟩
    · intro target ht
      obtain rfl := List.mem_singleton.mp ht
      exact (JsMap.get_set _ _ _ _).trans (if_pos rfl)
    · intro key hkey
      exact (JsMap.get_set _ _ _ _).trans (if_neg (hkey _ (List.mem_singleton_self _)))
    · intro target ht old hold
      obtain rfl := List.mem_singleton.mp ht
      rw [show m.byTargetName.get record.nameKey = some old from hold] at hsame
      simpa using hsame

/-! ## Runs -/

/-- What a run over the current packages makes of the packages by name. -/
structure Merges (current : List PackageRecord) (m m' : JsMap PackageRecord) : Prop where
  keyed : Keyed m → Keyed m'
  kept : ∀ key, ¬Replaced current key → m'.get key = m.get key
  replaced : ∀ key, Replaced current key → ∃ record ∈ current, ∃ target ∈ record.targets,
    targetKey target record.name = key ∧ m'.get key = some (record.on target)
  collection : ∀ key old new, m.get key = some old → m'.get key = some new → new.collection = old.collection
  present : ∀ record ∈ current, ∀ target ∈ record.targets, ∃ new,
    m'.get (targetKey target record.name) = some new ∧ new.collection = record.collection

theorem replaced_cons {record : PackageRecord} {rest : List PackageRecord} {key : String} :
    Replaced (record :: rest) key ↔ (∃ target ∈ record.targets, targetKey target record.name = key) ∨ Replaced rest key := by
  simp [Replaced]

theorem merges_nil (m : JsMap PackageRecord) : Merges [] m m where
  keyed := id
  kept := fun _ _ => rfl
  replaced := fun _ h => absurd h (by simp [Replaced])
  collection := fun key old new hold hnew => by rw [Option.some.inj (hold.symm.trans hnew)]
  present := fun _ hr => absurd hr List.not_mem_nil

theorem Puts.merges {record : PackageRecord} {rest : List PackageRecord} {m₁ m₂ m₃ : JsMap PackageRecord}
    (h : Puts record record.targets m₁ m₂) (h' : Merges rest m₂ m₃) : Merges (record :: rest) m₁ m₃ where
  keyed := fun hk => h'.keyed (h.keyed hk)
  kept := fun key hkey => by
    rw [replaced_cons, not_or] at hkey
    rw [h'.kept key hkey.2, h.kept key fun target ht he => hkey.1 ⟨target, ht, he.symm⟩]
  replaced := fun key hkey => by
    by_cases hrest : Replaced rest key
    · obtain ⟨record', hr, target, ht, hname, hget⟩ := h'.replaced key hrest
      exact ⟨record', List.mem_cons_of_mem _ hr, target, ht, hname, hget⟩
    · obtain ⟨target, ht, rfl⟩ := (replaced_cons.mp hkey).resolve_right hrest
      exact ⟨record, List.mem_cons_self, target, ht, rfl, (h'.kept _ hrest).trans (h.put target ht)⟩
  collection := fun key old new hold hnew => by
    by_cases hkey : ∃ target ∈ record.targets, targetKey target record.name = key
    · obtain ⟨target, ht, rfl⟩ := hkey
      rw [h'.collection _ _ _ (h.put target ht) hnew]
      exact (h.collection target ht old hold).symm
    · refine h'.collection key old new ?_ hnew
      rw [h.kept key fun target ht he => hkey ⟨target, ht, he.symm⟩]
      exact hold
  present := fun record' hr target ht => by
    rcases List.mem_cons.mp hr with rfl | hr
    · by_cases hrest : Replaced rest (targetKey target record'.name)
      · obtain ⟨new, -, t, -, -, hget⟩ := h'.replaced _ hrest
        have hcollection := h'.collection _ _ _ (h.put target ht) hget
        exact ⟨_, hget, hcollection⟩
      · exact ⟨_, (h'.kept _ hrest).trans (h.put target ht), rfl⟩
    · exact h'.present record' hr target ht

theorem addCurrent_merges {current : List PackageRecord} {m m' : Merged} (h : current.foldlM addCurrent m = .ok m') :
    Merges current m.byTargetName m'.byTargetName := by
  induction current generalizing m with
  | nil =>
    obtain rfl := Except.ok.inj h
    exact merges_nil _
  | cons record rest ih =>
    rw [List.foldlM_cons] at h
    obtain ⟨m₁, h₁, h⟩ := bind_ok.mp h
    exact (addCurrent_puts h₁).merges (ih h)

/-- What a run over the parent's packages adds. -/
structure Adds (parent : List PackageRecord) (m m' : JsMap PackageRecord) : Prop where
  keyed : Keyed m → Keyed m'
  kept : ∀ key record, m.get key = some record → m'.get key = some record
  added : ∀ record ∈ parent, m'.get record.nameKey = some record
  only : ∀ key record, m'.get key = some record → m.get key = some record ∨ (record ∈ parent ∧ record.nameKey = key)

theorem addParent_adds {parent : List PackageRecord} {m m' : Merged} (h : parent.foldlM addParent m = .ok m') :
    Adds parent m.byTargetName m'.byTargetName := by
  induction parent generalizing m with
  | nil =>
    obtain rfl := Except.ok.inj h
    exact ⟨id, fun _ _ => id, fun _ hr => absurd hr List.not_mem_nil, fun _ _ => .inl⟩
  | cons record rest ih =>
    rw [List.foldlM_cons] at h
    obtain ⟨m₁, h₁, h⟩ := bind_ok.mp h
    obtain ⟨hputs, hfree⟩ := addParent_puts h₁
    have hrest := ih h
    have hput := hputs.put _ (List.mem_singleton_self _)
    refine ⟨fun hk => hrest.keyed (hputs.keyed hk), fun key old hold => ?_, fun record' hr => ?_, fun key old hold => ?_⟩
    · refine hrest.kept key old ?_
      rw [hputs.kept key fun target ht he => ?_]
      · exact hold
      · obtain rfl := List.mem_singleton.mp ht
        rw [he] at hold
        exact absurd (hfree.symm.trans hold) nofun
    · rcases List.mem_cons.mp hr with rfl | hr
      · exact hrest.kept _ _ hput
      · exact hrest.added record' hr
    · rcases hrest.only key old hold with hold | ⟨hr, hkey⟩
      · by_cases he : key = targetKey record.targetArchitecture record.name
        · subst he
          obtain rfl := Option.some.inj (hput.symm.trans hold)
          exact .inr ⟨List.mem_cons_self, rfl⟩
        · rw [hputs.kept key fun target ht h' => he (by rw [h', List.mem_singleton.mp ht])] at hold
          exact .inl hold
      · exact .inr ⟨List.mem_cons_of_mem _ hr, hkey⟩

/-! ## The merged packages -/

/-- What was merged: each name on a target stands for one package. -/
structure MergedFrom (current : List PackageRecord) (parent : List PackageRecord) (merged : List PackageRecord) : Prop where
  names : (merged.map (·.nameKey)).Nodup
  files : (merged.map (·.fileKey)).Nodup
  parent_kept : ∀ record ∈ parent, ¬Replaced current record.nameKey → record ∈ merged
  current_kept : ∀ record ∈ current, ∀ target ∈ record.targets, ∃ new ∈ merged,
    new.nameKey = targetKey target record.name ∧ new.collection = record.collection
  only : ∀ new ∈ merged, (∃ record ∈ current, ∃ target ∈ record.targets, new = record.on target) ∨
    (new ∈ parent ∧ ¬Replaced current new.nameKey)

theorem mergeRecords_from {env : RepositoryEnv} {current merged : List PackageRecord} {parent : List ArtifactRow}
    (h : mergeRecords env current parent = .ok merged) :
    MergedFrom current (parent.map (·.toPackageRecord)) merged := by
  obtain ⟨-, -, h⟩ := bind_ok.mp h
  obtain ⟨m₁, hparent, h⟩ := bind_ok.mp h
  obtain ⟨m₂, hcurrent, h⟩ := bind_ok.mp h
  have hadds := addParent_adds hparent
  have hmerges := addCurrent_merges hcurrent
  have hkeyed := hmerges.keyed (hadds.keyed keyed_nil)
  simp only at h
  split_ifs at h with hunique
  swap
  · cases h
  obtain rfl := Except.ok.inj h
  have hperm := List.perm_insertionSort (fun a b : PackageRecord => env.collate
    s!"{a.collection.text}:{a.targetArchitecture.text}:{a.name}:{a.version}"
    s!"{b.collection.text}:{b.targetArchitecture.text}:{b.name}:{b.version}" = true) (m₂.byTargetName.map (·.2))
  have hmem (record : PackageRecord) : record ∈ List.insertionSort (fun a b : PackageRecord => env.collate
      s!"{a.collection.text}:{a.targetArchitecture.text}:{a.name}:{a.version}"
      s!"{b.collection.text}:{b.targetArchitecture.text}:{b.name}:{b.version}" = true) (m₂.byTargetName.map (·.2)) ↔
      m₂.byTargetName.get record.nameKey = some record := by
    rw [hperm.mem_iff, List.mem_map]
    constructor
    · rintro ⟨⟨key, value⟩, he, rfl⟩
      have hget := (JsMap.mem_iff_get hkeyed.nodup).mp he
      rwa [hkeyed.own key value hget]
    · intro hget
      exact ⟨_, (JsMap.mem_iff_get hkeyed.nodup).mpr hget, rfl⟩
  refine ⟨((hperm.map _).nodup_iff).mpr hunique.1, ((hperm.map _).nodup_iff).mpr hunique.2, fun record hr hno => ?_,
    fun record hr target ht => ?_, fun new hnew => ?_⟩
  · rw [hmem, hmerges.kept _ hno]
    exact hadds.added record hr
  · obtain ⟨new, hget, hcollection⟩ := hmerges.present record hr target ht
    have hown := hkeyed.own _ _ hget
    refine ⟨new, (hmem new).mpr (by rwa [hown]), hown, hcollection⟩
  · rw [hmem] at hnew
    by_cases hreplaced : Replaced current new.nameKey
    · obtain ⟨record, hr, target, ht, -, hget⟩ := hmerges.replaced _ hreplaced
      exact .inl ⟨record, hr, target, ht, Option.some.inj (hnew.symm.trans hget)⟩
    · rw [hmerges.kept _ hreplaced] at hnew
      rcases hadds.only _ _ hnew with hnil | ⟨hr, -⟩
      · cases hnil
      · exact .inr ⟨hr, hreplaced⟩

/-! ## Nothing is lost -/

/-- Every current package is there on its targets, every other one of the parent as it was, and nothing else. -/
structure Complete (current parent merged : List PackageRecord) : Prop where
  names : ∀ a ∈ merged, ∀ b ∈ merged, a.targetArchitecture = b.targetArchitecture → a.name = b.name → a = b
  files : ∀ a ∈ merged, ∀ b ∈ merged, a.targetArchitecture = b.targetArchitecture →
    a.artifactFilename = b.artifactFilename → a = b
  once : merged.Nodup
  current_present : ∀ record ∈ current, ∀ target ∈ record.targets, record.on target ∈ merged
  parent_retained : ∀ record ∈ parent, ¬Replaced current record.nameKey → record ∈ merged
  only : ∀ new ∈ merged, (∃ record ∈ current, ∃ target ∈ record.targets, new = record.on target) ∨
    (new ∈ parent ∧ ¬Replaced current new.nameKey)

/-- Current packages of one name are the same on every target that both are for. -/
def Agreeing (current : List PackageRecord) : Prop :=
  ∀ a ∈ current, ∀ b ∈ current, a.name = b.name → ∀ target ∈ a.targets, target ∈ b.targets → a.on target = b.on target

theorem eq_of_key {f : PackageRecord → String} {records : List PackageRecord} (h : (records.map f).Nodup)
    {a b : PackageRecord} (ha : a ∈ records) (hb : b ∈ records) (hab : f a = f b) : a = b :=
  List.inj_on_of_nodup_map h ha hb hab

/-- A package that any architecture runs. -/
def portablePackage (version filename : String) (target : Architecture) : PackageRecord :=
  { samplePackage with version, architecture := .any, artifactFilename := filename, targetArchitecture := target }

theorem merges_of_isSome {env : RepositoryEnv} {current : List PackageRecord} {parent : List ArtifactRow}
    (h : (mergeRecords env current parent).toOption.isSome = true) : ∃ merged, mergeRecords env current parent = .ok merged := by
  cases hmerged : mergeRecords env current parent with
  | error e =>
    rw [hmerged] at h
    cases h
  | ok merged => exact ⟨merged, rfl⟩

theorem portable_merges : (mergeRecords sampleEnv [portablePackage "1" "a-1" .x86_64] []).toOption.isSome = true := by
  decide +kernel

theorem portables_merge : (mergeRecords sampleEnv [portablePackage "1" "a-1" .x86_64, portablePackage "2" "a-2" .aarch64]
    []).toOption.isSome = true := by
  decide +kernel

end Omapkg.Server.Owned
