import Omapkg.Server.Uploads
/-!
# What uploads keep

A completed upload's object is stored and is what its row declares, whatever
the order of requests, as long as no request deletes an object that another
has put together.
-/

namespace Omapkg.Server.Uploads

open Utf Prog Multipart

variable (sha256 : Bytes → Hash.Digest)

/-- The object at an upload's key is what its row declares. -/
def Stored (row : UploadDeclaration) (s : UploadState) : Prop :=
  ∃ bytes, s.bucket.objects row.objectKey = some bytes ∧ (sha256 bytes).hex = row.expectedSha256 ∧
    bytes.length = row.expectedSize

structure UploadsOk (s : UploadState) : Prop where
  ids : (s.uploads.map (·.id)).Nodup
  keys : (s.uploads.map (·.objectKey)).Nodup
  created : ∀ u ∈ s.uploads, s.bucket.keyOf u.r2UploadId = some u.objectKey
  owned : ∀ id m, s.bucket.finishOf id = some (.completed m) → ∃ u ∈ s.uploads, u.r2UploadId = id
  completed : ∀ u ∈ s.uploads, u.status = .completed →
    (∃ m, s.bucket.finishOf u.r2UploadId = some (.completed m)) ∧ u.actualSha256 = some u.expectedSha256 ∧
      u.actualSize = some u.expectedSize ∧ (s.removed = 0 → Stored sha256 u.toUploadDeclaration s)

/-- What the `n`-th request does: it completes the rows whose parts it has put
together, and leaves the objects that others have put together. -/
structure Does (n : Nat) (s s' : UploadState) : Prop where
  bucket : s.bucket.Extends s'.bucket
  rows : ∀ u ∈ s.uploads, ∃ u' ∈ s'.uploads, u'.toUploadDeclaration = u.toUploadDeclaration ∧
    (u.status = .completed → u' = u) ∧
    (u'.status = .completed → u.status = .completed ∨ s.bucket.finishOf u.r2UploadId = some (.completed n))
  removed : s.removed ≤ s'.removed
  objects : s'.removed = 0 → ∀ u ∈ s.uploads, ∀ m, m ≠ n → s.bucket.finishOf u.r2UploadId = some (.completed m) →
    s'.bucket.objects u.objectKey = s.bucket.objects u.objectKey

/-- What others leave to the `n`-th request: the rows and the objects whose
parts it has put together. -/
structure Leaves (n : Nat) (s s' : UploadState) : Prop where
  bucket : s.bucket.Extends s'.bucket
  rows : ∀ u ∈ s.uploads, ∃ u' ∈ s'.uploads, u'.toUploadDeclaration = u.toUploadDeclaration ∧
    (u.status = .completed → u' = u) ∧
    (s.bucket.finishOf u.r2UploadId = some (.completed n) → u'.status = .completed → u.status = .completed)
  removed : s.removed ≤ s'.removed
  objects : s'.removed = 0 → ∀ u ∈ s.uploads, s.bucket.finishOf u.r2UploadId = some (.completed n) →
    s'.bucket.objects u.objectKey = s.bucket.objects u.objectKey

instance (n : Nat) : Std.Refl (Does n) where
  refl _ := ⟨.refl _, fun u hu => ⟨u, hu, rfl, fun _ => rfl, .inl⟩, Nat.le_refl _, fun _ _ _ _ _ _ => rfl⟩

instance (n : Nat) : Std.Refl (Leaves n) where
  refl _ := ⟨.refl _, fun u hu => ⟨u, hu, rfl, fun _ => rfl, fun _ h => h⟩, Nat.le_refl _, fun _ _ _ _ => rfl⟩

theorem Leaves.trans {n : Nat} {s s' s'' : UploadState} (h : Leaves n s s') (h' : Leaves n s' s'') : Leaves n s s'' where
  bucket := h.bucket.trans h'.bucket
  rows u hu := by
    obtain ⟨u', hu', hsame, hstays, hmine⟩ := h.rows u hu
    obtain ⟨u'', hu'', hsame', hstays', hmine'⟩ := h'.rows u' hu'
    have hid : u'.r2UploadId = u.r2UploadId := congrArg UploadDeclaration.r2UploadId hsame
    refine ⟨u'', hu'', hsame'.trans hsame, fun hc => ?_, fun hf hc => hmine hf (hmine' ?_ hc)⟩
    · obtain rfl := hstays hc
      exact hstays' hc
    · rw [hid]
      exact h.bucket.finished _ _ hf
  removed := Nat.le_trans h.removed h'.removed
  objects hzero u hu hf := by
    obtain ⟨u', hu', hsame, -, -⟩ := h.rows u hu
    have hid : u'.r2UploadId = u.r2UploadId := congrArg UploadDeclaration.r2UploadId hsame
    have hkey : u'.objectKey = u.objectKey := congrArg UploadDeclaration.objectKey hsame
    have hlater := h'.objects hzero u' hu' (by rw [hid]; exact h.bucket.finished _ _ hf)
    rw [hkey] at hlater
    exact hlater.trans (h.objects (Nat.le_zero.mp (hzero ▸ h'.removed)) u hu hf)

instance (n : Nat) : IsTrans UploadState (Leaves n) := ⟨fun _ _ _ => Leaves.trans⟩

/-- Requests leave each other's uploads alone. -/
theorem Does.others {m n : Nat} (hmn : m ≠ n) {s s' : UploadState} (h : Does m s s') : Leaves n s s' where
  bucket := h.bucket
  rows u hu := by
    obtain ⟨u', hu', hsame, hstays, hdone⟩ := h.rows u hu
    refine ⟨u', hu', hsame, hstays, fun hf hc => (hdone hc).resolve_right fun hm => hmn ?_⟩
    rw [hm] at hf
    cases hf
    rfl
  removed := h.removed
  objects hzero u hu hf := h.objects hzero u hu n (Ne.symm hmn) hf

section
variable {sha256} {n : Nat} {s s' : UploadState}

theorem UploadsOk.eq_of_id (h : UploadsOk sha256 s) {u v : UploadRow} (hu : u ∈ s.uploads) (hv : v ∈ s.uploads)
    (hid : u.id = v.id) : u = v := List.inj_on_of_nodup_map h.ids hu hv hid

theorem UploadsOk.eq_of_key (h : UploadsOk sha256 s) {u v : UploadRow} (hu : u ∈ s.uploads) (hv : v ∈ s.uploads)
    (hkey : u.objectKey = v.objectKey) : u = v := List.inj_on_of_nodup_map h.keys hu hv hkey

/-- A step on other tables. -/
theorem UploadsOk.same (h : UploadsOk sha256 s) (huploads : s'.uploads = s.uploads) (hbucket : s'.bucket = s.bucket)
    (hremoved : s'.removed = s.removed) : UploadsOk sha256 s' ∧ Does n s s' ∧ Leaves n s s' := by
  refine ⟨⟨huploads ▸ h.ids, huploads ▸ h.keys, ?_, ?_, ?_⟩, ⟨hbucket ▸ .refl _, fun u hu => ⟨u, huploads ▸ hu, rfl,
    fun _ => rfl, .inl⟩, Nat.le_of_eq hremoved.symm, fun _ _ _ _ _ _ => by rw [hbucket]⟩, ⟨hbucket ▸ .refl _,
    fun u hu => ⟨u, huploads ▸ hu, rfl, fun _ => rfl, fun _ h => h⟩, Nat.le_of_eq hremoved.symm,
    fun _ _ _ _ => by rw [hbucket]⟩⟩
  · rw [huploads, hbucket]
    exact h.created
  · rw [huploads, hbucket]
    exact h.owned
  · rw [huploads, hbucket, hremoved]
    intro u hu hc
    obtain ⟨hm, hsha, hsize, hstored⟩ := h.completed u hu hc
    refine ⟨hm, hsha, hsize, fun hzero => ?_⟩
    unfold Stored
    rw [hbucket]
    exact hstored hzero

/-! ## Steps on the bucket -/

/-- A call that neither completes an upload nor changes an object. -/
theorem UploadsOk.call (h : UploadsOk sha256 s) {b : Bucket String} (hextends : s.bucket.Extends b)
    (hobjects : b.objects = s.bucket.objects)
    (hfinish : ∀ id m, b.finishOf id = some (.completed m) → s.bucket.finishOf id = some (.completed m)) :
    UploadsOk sha256 { s with bucket := b } ∧ Does n s { s with bucket := b } := by
  refine ⟨⟨h.ids, h.keys, fun u hu => hextends.keys _ _ (h.created u hu), fun id m hf => h.owned id m (hfinish id m hf),
    fun u hu hc => ?_⟩, ⟨hextends, fun u hu => ⟨u, hu, rfl, fun _ => rfl, .inl⟩, Nat.le_refl _,
    fun _ _ _ _ _ _ => by rw [hobjects]⟩⟩
  obtain ⟨⟨m, hm⟩, hsha, hsize, hstored⟩ := h.completed u hu hc
  refine ⟨⟨m, hextends.finished _ _ hm⟩, hsha, hsize, fun hzero => ?_⟩
  unfold Stored
  rw [hobjects]
  exact hstored hzero

/-- The upload's row is in the table. -/
def Declared (row : UploadDeclaration) (s : UploadState) : Prop := ∃ u ∈ s.uploads, u.toUploadDeclaration = row

/-- The `n`-th request has put the upload's parts together, and its row is not completed. -/
def Mine (n : Nat) (row : UploadDeclaration) (s : UploadState) : Prop :=
  s.bucket.finishOf row.r2UploadId = some (.completed n) ∧
    ∃ u ∈ s.uploads, u.toUploadDeclaration = row ∧ u.status ≠ .completed

/-- The object that it has put together is stored. -/
def Holding (n : Nat) (row : UploadDeclaration) (bytes : Bytes) (s : UploadState) : Prop :=
  Mine n row s ∧ (s.removed = 0 → s.bucket.objects row.objectKey = some bytes)

theorem Declared.stable {row : UploadDeclaration} (h : Declared row s) (hs : Leaves n s s') : Declared row s' := by
  obtain ⟨u, hu, hrow⟩ := h
  obtain ⟨u', hu', hsame, -, -⟩ := hs.rows u hu
  exact ⟨u', hu', hsame.trans hrow⟩

theorem Declared.does {row : UploadDeclaration} (h : Declared row s) (hs : Does n s s') : Declared row s' := by
  obtain ⟨u, hu, hrow⟩ := h
  obtain ⟨u', hu', hsame, -, -⟩ := hs.rows u hu
  exact ⟨u', hu', hsame.trans hrow⟩

theorem Mine.declared {row : UploadDeclaration} (h : Mine n row s) : Declared row s := by
  obtain ⟨-, u, hu, hrow, -⟩ := h
  exact ⟨u, hu, hrow⟩

theorem Mine.stable {row : UploadDeclaration} (h : Mine n row s) (hs : Leaves n s s') : Mine n row s' := by
  obtain ⟨hf, u, hu, rfl, hopen⟩ := h
  obtain ⟨u', hu', hsame, -, hmine⟩ := hs.rows u hu
  exact ⟨hs.bucket.finished _ _ hf, u', hu', hsame, fun hc => hopen (hmine hf hc)⟩

theorem Holding.stable {row : UploadDeclaration} {bytes : Bytes} (h : Holding n row bytes s) (hs : Leaves n s s') :
    Holding n row bytes s' := by
  refine ⟨h.1.stable hs, fun hzero => ?_⟩
  obtain ⟨⟨hf, u, hu, rfl, -⟩, hobject⟩ := h
  rw [hs.objects hzero u hu hf]
  exact hobject (Nat.le_zero.mp (hzero ▸ hs.removed))

/-- Putting the parts together makes the object the request's own. -/
theorem UploadsOk.complete (h : UploadsOk sha256 s) {row : UploadDeclaration} (hrow : Declared row s) {b : Bucket String}
    {listed : List (Nat × String)} {bytes : Bytes}
    (hcomplete : s.bucket.complete n row.objectKey row.r2UploadId listed = some (b, bytes)) :
    UploadsOk sha256 { s with bucket := b } ∧ Does n s { s with bucket := b } ∧ Holding n row bytes { s with bucket := b } := by
  obtain ⟨hextends, hobjects, hopen, -, hdone, hothers⟩ := Bucket.complete_some hcomplete
  obtain ⟨u, hu, rfl⟩ := hrow
  -- no upload that was put together before has the row's key
  have hne : ∀ v ∈ s.uploads, ∀ m, s.bucket.finishOf v.r2UploadId = some (.completed m) → v.objectKey ≠ u.objectKey := by
    intro v hv m hm hkey
    obtain rfl := h.eq_of_key hv hu hkey
    rw [hopen] at hm
    cases hm
  have hkept : ∀ v ∈ s.uploads, ∀ m, s.bucket.finishOf v.r2UploadId = some (.completed m) →
      b.objects v.objectKey = s.bucket.objects v.objectKey := by
    intro v hv m hm
    rw [hobjects, Function.update_of_ne (hne v hv m hm)]
  refine ⟨⟨h.ids, h.keys, fun v hv => hextends.keys _ _ (h.created v hv), fun id m hf => ?_, fun v hv hc => ?_⟩,
    ⟨hextends, fun v hv => ⟨v, hv, rfl, fun _ => rfl, .inl⟩, Nat.le_refl _, fun _ v hv m _ hm => hkept v hv m hm⟩,
    ⟨hdone, u, hu, rfl, fun hc => ?_⟩, fun _ => ?_⟩
  · by_cases hid : u.r2UploadId = id
    · exact ⟨u, hu, hid⟩
    · exact h.owned id m (hothers id hid ▸ hf)
  · obtain ⟨⟨m, hm⟩, hsha, hsize, hstored⟩ := h.completed v hv hc
    refine ⟨⟨m, hextends.finished _ _ hm⟩, hsha, hsize, fun hzero => ?_⟩
    unfold Stored
    rw [show ({ s with bucket := b } : UploadState).bucket.objects v.objectKey = _ from hkept v hv m hm]
    exact hstored hzero
  · obtain ⟨⟨m, hm⟩, -⟩ := h.completed u hu hc
    rw [hopen] at hm
    cases hm
  · show b.objects u.objectKey = some bytes
    rw [hobjects, Function.update_self]

/-- A delete takes an object that is the request's own, or is counted. -/
theorem UploadsOk.delete (h : UploadsOk sha256 s) {row : UploadDeclaration} (hrow : Declared row s) {own : Bool}
    (hown : own = true → Mine n row s) :
    let s' := { s with bucket := s.bucket.delete row.objectKey
                       removed := if own = false ∧ (s.bucket.objects row.objectKey).isSome then s.removed + 1 else s.removed }
    UploadsOk sha256 s' ∧ Does n s s' := by
  intro s'
  obtain ⟨u, hu, rfl⟩ := hrow
  have hremoved : s.removed ≤ s'.removed := by
    show s.removed ≤ if _ then _ else _
    split
    · exact Nat.le_succ _
    · exact Nat.le_refl _
  -- an object that is not at the row's key stays, and so does one that is not there
  have hkept : s'.removed = 0 → ∀ v ∈ s.uploads, ∀ m, s.bucket.finishOf v.r2UploadId = some (.completed m) →
      (m ≠ n ∨ v.status = .completed) → s'.bucket.objects v.objectKey = s.bucket.objects v.objectKey := by
    intro hzero v hv m hm hother
    show Function.update s.bucket.objects u.objectKey none v.objectKey = _
    by_cases hkey : v.objectKey = u.objectKey
    · obtain rfl := h.eq_of_key hv hu hkey
      rw [Function.update_self]
      by_cases hmine : own = true
      · obtain ⟨hf, w, hw, hsame, hopen⟩ := hown hmine
        obtain rfl := h.eq_of_id hw hv (congrArg UploadDeclaration.id hsame)
        rw [hf] at hm
        cases hm
        rcases hother with hne | hc
        · exact absurd rfl hne
        · exact absurd hc hopen
      · cases hobject : s.bucket.objects v.objectKey with
        | none => rfl
        | some bytes =>
          have hcount : s'.removed = s.removed + 1 := if_pos ⟨by simpa using hmine, by rw [hobject]; rfl⟩
          exact absurd (hcount.symm.trans hzero) (Nat.succ_ne_zero _)
    · rw [Function.update_of_ne hkey]
  refine ⟨⟨h.ids, h.keys, h.created, h.owned, fun v hv hc => ?_⟩, ⟨⟨fun _ _ hk => hk, fun _ _ hf => hf⟩,
    fun v hv => ⟨v, hv, rfl, fun _ => rfl, .inl⟩, hremoved, fun hzero v hv m hne hm => hkept hzero v hv m hm (.inl hne)⟩⟩
  obtain ⟨⟨m, hm⟩, hsha, hsize, hstored⟩ := h.completed v hv hc
  refine ⟨⟨m, hm⟩, hsha, hsize, fun hzero => ?_⟩
  unfold Stored
  rw [hkept hzero v hv m hm (.inr hc)]
  exact hstored (Nat.le_zero.mp (hzero ▸ hremoved))

/-! ## Steps on the rows -/

/-- What an update of active uploads keeps. -/
theorem UploadsOk.update (h : UploadsOk sha256 s) {p : UploadRow → Bool} {f : UploadRow → UploadRow}
    (hdecl : ∀ u, (f u).toUploadDeclaration = u.toUploadDeclaration)
    (hactive : ∀ u ∈ s.uploads, p u = true → u.status = .active)
    (hdone : ∀ u ∈ s.uploads, p u = true → (f u).status = .completed →
      s.bucket.finishOf u.r2UploadId = some (.completed n) ∧ (f u).actualSha256 = some u.expectedSha256 ∧
        (f u).actualSize = some u.expectedSize ∧ (s.removed = 0 → Stored sha256 u.toUploadDeclaration s)) :
    UploadsOk sha256 { s with uploads := (Sql.update p f s.uploads).1 } ∧
      Does n s { s with uploads := (Sql.update p f s.uploads).1 } := by
  have hfield {α : Type} (field : UploadDeclaration → α) (u : UploadRow) :
      field (f u).toUploadDeclaration = field u.toUploadDeclaration := by rw [hdecl]
  refine ⟨⟨?_, ?_, fun u' hu' => ?_, fun id m hf => ?_, fun u' hu' hc => ?_⟩, ⟨.refl _, fun u hu => ?_, Nat.le_refl _,
    fun _ _ _ _ _ _ => rfl⟩⟩
  · rw [Sql.map_update fun u _ => hfield (·.id) u]
    exact h.ids
  · rw [Sql.map_update fun u _ => hfield (·.objectKey) u]
    exact h.keys
  · obtain ⟨u, hu, rfl⟩ := Sql.mem_update.mp hu'
    split
    · rw [hfield (·.r2UploadId) u, hfield (·.objectKey) u]
      exact h.created u hu
    · exact h.created u hu
  · obtain ⟨u, hu, hid⟩ := h.owned id m hf
    refine ⟨_, Sql.mem_update.mpr ⟨u, hu, rfl⟩, ?_⟩
    split
    · rw [hfield (·.r2UploadId) u, hid]
    · exact hid
  · obtain ⟨u, hu, rfl⟩ := Sql.mem_update.mp hu'
    by_cases hp : p u = true
    · rw [if_pos hp] at hc ⊢
      obtain ⟨hf, hsha, hsize, hstored⟩ := hdone u hu hp hc
      rw [hdecl]
      exact ⟨⟨n, hf⟩, hsha, hsize, hstored⟩
    · rw [if_neg hp] at hc ⊢
      exact h.completed u hu hc
  · refine ⟨_, Sql.mem_update.mpr ⟨u, hu, rfl⟩, ?_⟩
    by_cases hp : p u = true
    · rw [if_pos hp]
      refine ⟨hdecl u, fun hc => ?_, fun hc => .inr (hdone u hu hp hc).1⟩
      rw [hactive u hu hp] at hc
      cases hc
    · rw [if_neg hp]
      exact ⟨rfl, fun _ => rfl, .inl⟩

theorem UploadsOk.insert (h : UploadsOk sha256 s) {row : UploadRow} (hid : ∀ u ∈ s.uploads, u.id ≠ row.id)
    (hkey : ∀ u ∈ s.uploads, u.objectKey ≠ row.objectKey) (hstatus : row.status = .active)
    (hcreated : s.bucket.keyOf row.r2UploadId = some row.objectKey) :
    UploadsOk sha256 { s with uploads := s.uploads ++ [row] } ∧ Does n s { s with uploads := s.uploads ++ [row] } := by
  have hnodup {f : UploadRow → String} (hold : (s.uploads.map f).Nodup) (hnew : ∀ u ∈ s.uploads, f u ≠ f row) :
      ((s.uploads ++ [row]).map f).Nodup := by
    rw [List.map_append, List.nodup_append]
    refine ⟨hold, by simp, fun x hx y hy => ?_⟩
    obtain ⟨u, hu, rfl⟩ := List.mem_map.mp hx
    obtain rfl := List.mem_singleton.mp hy
    exact hnew u hu
  refine ⟨⟨hnodup h.ids hid, hnodup h.keys hkey, fun u hu => ?_, fun id m hf => ?_, fun u hu hc => ?_⟩,
    ⟨.refl _, fun u hu => ⟨u, List.mem_append_left _ hu, rfl, fun _ => rfl, .inl⟩, Nat.le_refl _,
      fun _ _ _ _ _ _ => rfl⟩⟩
  · rcases List.mem_append.mp hu with hu | hu
    · exact h.created u hu
    · obtain rfl := List.mem_singleton.mp hu
      exact hcreated
  · obtain ⟨u, hu, hid⟩ := h.owned id m hf
    exact ⟨u, List.mem_append_left _ hu, hid⟩
  · rcases List.mem_append.mp hu with hu | hu
    · exact h.completed u hu hc
    · obtain rfl := List.mem_singleton.mp hu
      rw [hstatus] at hc
      cases hc

end

/-! ## Programs -/

/-- What the `n`-th request keeps among others. -/
abbrev Handles {α : Type} (n : Nat) (Q : α → UploadState → Prop) (p : Prog UploadState UploadThrow α) (s : UploadState) :
    Prop := Keeps (UploadsOk sha256) (fun _ _ => True) (Does n) (Leaves n) Q p s

section
variable {sha256} {n : Nat} {α β : Type} {Q : α → UploadState → Prop} {s : UploadState}

/-- A row that was declared stays so over a program that is run first. -/
theorem handles_bind {Q' : β → UploadState → Prop} {row : UploadDeclaration} {p : Prog UploadState UploadThrow β}
    {f : β → Prog UploadState UploadThrow α} (hi : UploadsOk sha256 s) (hrow : Declared row s) (hp : Handles sha256 n Q' p s)
    (hf : ∀ b s', UploadsOk sha256 s' → Q' b s' → Declared row s' → Handles sha256 n Q (f b) s') :
    Handles sha256 n Q (p >>= f) s :=
  keeps_bind hi (Keeps.frame (P := Declared row) (fun _ _ h hs => h.stable hs) (fun _ _ h hs => h.does hs) hp hrow)
    fun b s' hi' hq => hf b s' hi' hq.1 hq.2

/-- A call does nothing, or what it asks for, and then its answer may be lost. -/
theorem bucketCall_cases (f : Bucket String → Option (Bucket String × β)) (s : UploadState) :
    bucketCall f s = (.ok (none, false), s) ∨ ∃ b a, f s.bucket = some (b, a) ∧
      (bucketCall f s = (.ok (none, true), { s with bucket := b }) ∨
        bucketCall f s = (.ok (some a, true), { s with bucket := b })) := by
  unfold bucketCall
  split
  · next b a _ hf => exact .inr ⟨b, a, hf, .inr rfl⟩
  · next b a _ hf => exact .inr ⟨b, a, hf, .inl rfl⟩
  · exact .inl rfl

theorem callBucket_keeps_bind {f : Bucket String → Option (Bucket String × β)}
    {g : Option β × Bool → Prog UploadState UploadThrow α}
    (hnone : ∀ s', UploadsOk sha256 s' → Leaves n s s' → Handles sha256 n Q (g (none, false)) s')
    (hsome : ∀ s' b a, UploadsOk sha256 s' → Leaves n s s' → f s'.bucket = some (b, a) →
      (UploadsOk sha256 { s' with bucket := b } ∧ Does n s' { s' with bucket := b }) ∧
        Handles sha256 n Q (g (none, true)) { s' with bucket := b } ∧
        Handles sha256 n Q (g (some a, true)) { s' with bucket := b }) :
    Handles sha256 n Q (callBucket f >>= g) s := by
  refine keeps_transact_bind fun s' hi hs _ => ?_
  rcases bucketCall_cases f s' with hskip | ⟨b, a, hcall, hlost | hanswered⟩
  · rw [hskip]
    refine ⟨hi, refl_of (Does n) s', fun x hx => ?_⟩
    cases hx
    exact hnone s' hi hs
  · rw [hlost]
    obtain ⟨⟨hi', hdoes⟩, hkeeps, -⟩ := hsome s' b a hi hs hcall
    refine ⟨hi', hdoes, fun x hx => ?_⟩
    cases hx
    exact hkeeps
  · rw [hanswered]
    obtain ⟨⟨hi', hdoes⟩, -, hkeeps⟩ := hsome s' b a hi hs hcall
    refine ⟨hi', hdoes, fun x hx => ?_⟩
    cases hx
    exact hkeeps

/-- A call that neither completes an upload nor changes an object. -/
theorem callBucket_keeps {f : Bucket String → Option (Bucket String × β)}
    (hf : ∀ b b' a, f b = some (b', a) → b.Extends b' ∧ b'.objects = b.objects ∧
      ∀ id m, b'.finishOf id = some (.completed m) → b.finishOf id = some (.completed m)) :
    Handles sha256 n (fun _ _ => True) (callBucket f) s := by
  intro s' hi hs _
  have hcalled : ∀ b a, f s'.bucket = some (b, a) →
      UploadsOk sha256 { s' with bucket := b } ∧ Does n s' { s' with bucket := b } := by
    intro b a hcall
    obtain ⟨hextends, hobjects, hfinish⟩ := hf _ _ _ hcall
    exact hi.call hextends hobjects hfinish
  rcases bucketCall_cases f s' with hskip | ⟨b, a, hcall, hlost | hanswered⟩
  · simp only [hskip]
    exact ⟨hi, refl_of (Does n) s', fun _ _ _ => trivial⟩
  · simp only [hlost]
    exact ⟨(hcalled b a hcall).1, (hcalled b a hcall).2, fun _ _ _ => trivial⟩
  · simp only [hanswered]
    exact ⟨(hcalled b a hcall).1, (hcalled b a hcall).2, fun _ _ _ => trivial⟩

theorem abort_keeps (key : String) (id : Nat) :
    Handles sha256 n (fun _ _ => True) (callBucket (Bucket.abort key id)) s := by
  refine callBucket_keeps fun b b' u hcall => ?_
  obtain ⟨hextends, hobjects, haborted, hothers⟩ := Bucket.abort_some hcall
  refine ⟨hextends, hobjects, fun i m hf => ?_⟩
  by_cases hi : id = i
  · subst hi
    rw [haborted] at hf
    cases hf
  · rwa [hothers i hi] at hf

theorem commit_keeps {statements : List (Sql.Statement UploadState)}
    (h : ∀ s' s'' ns, UploadsOk sha256 s' → Leaves n s s' → Sql.runAll statements s' 0 = .ok (s'', ns) →
      UploadsOk sha256 s'' ∧ Does n s' s'') :
    Handles sha256 n (fun _ _ => True) (commit statements) s := by
  intro s' hi hs _
  have hskip : UploadsOk sha256 s' ∧ Does n s' s' := ⟨hi, refl_of (Does n) s'⟩
  have hbatch : UploadsOk sha256 (Sql.batch statements s').2 ∧ Does n s' (Sql.batch statements s').2 := by
    unfold Sql.batch
    cases hrun : Sql.runAll statements s' 0 with
    | error e => exact hskip
    | ok answer => exact h s' answer.1 answer.2 hi hs hrun
  cases hdatabase : s'.database <;> simp only [hdatabase]
  · exact ⟨hbatch.1, hbatch.2, fun _ _ _ => trivial⟩
  · exact ⟨hskip.1, hskip.2, fun _ _ _ => trivial⟩
  · exact ⟨hbatch.1, hbatch.2, fun _ _ _ => trivial⟩

theorem deleteObject_keeps {row : UploadDeclaration} {own : Bool} (hrow : Declared row s) (hown : own = true → Mine n row s) :
    Handles sha256 n (fun _ _ => True) (deleteObject own row.objectKey) s := by
  intro s' hi hs _
  by_cases hfails : s'.storage = .fails
  · simp only [hfails, if_true]
    exact ⟨hi, refl_of (Does n) s', fun _ _ _ => trivial⟩
  · simp only [hfails, if_false]
    obtain ⟨hi', hdoes⟩ := hi.delete (hrow.stable hs) fun h => (hown h).stable hs
    exact ⟨hi', hdoes, fun _ _ _ => trivial⟩

/-! ## Failure handling -/

theorem updateUploads_ok {p : Nat → UploadRow → Bool} {f : UploadRow → UploadRow} {s s' : UploadState} {ns : List Nat}
    (h : Sql.runAll [updateUploads p f] s 0 = .ok (s', ns)) : s' = { s with uploads := (Sql.update (p 0) f s.uploads).1 } := by
  obtain ⟨s₁, n, ns₁, hfirst, hnil, -⟩ := Sql.runAll_cons_ok.mp h
  obtain ⟨rfl, -⟩ := Sql.runAll_nil_ok.mp hnil
  cases hfirst
  rfl

/-- Closing an active upload without completing it. -/
theorem close_keeps {p : UploadRow → Bool} {f : UploadRow → UploadRow}
    (hdecl : ∀ u, (f u).toUploadDeclaration = u.toUploadDeclaration) (hactive : ∀ u, p u = true → u.status = .active)
    (hclosed : ∀ u, (f u).status ≠ .completed) :
    Handles sha256 n (fun _ _ => True) (commit [updateUploads (fun _ => p) f]) s := by
  refine commit_keeps fun s' s'' ns hi _ hrun => ?_
  obtain rfl := updateUploads_ok hrun
  exact hi.update hdecl (fun u _ hp => hactive u hp) fun u _ _ hc => absurd hc (hclosed u)

theorem markFailed_keeps (row : UploadRow) (actualSize : Option Nat) (actualSha256 : Option String) :
    Handles sha256 n (fun _ _ => True) (markFailed row actualSize actualSha256) s := by
  refine keeps_read_bind fun s₁ hi₁ _ => ?_
  have hclose : Handles sha256 n (fun _ _ => True) (commit [failUpload row actualSize actualSha256 s₁.clock]) s₁ :=
    close_keeps (fun _ => rfl) (fun u hp => by simp at hp; exact hp.2) fun _ => by simp
  refine keeps_bind hi₁ hclose fun result s₂ _ _ => ?_
  cases result with
  | ok ns => exact fun _ _ _ => trivial
  | error e => trivial

theorem abortR2_keeps {row : UploadRow} {own : Bool} (hrow : Declared row.toUploadDeclaration s)
    (hown : own = true → Mine n row.toUploadDeclaration s) : Handles sha256 n (fun _ _ => True) (abortR2 own row) s := by
  refine callBucket_keeps_bind (fun s₁ hi₁ hs₁ => ?_) fun s₁ b u hi₁ hs₁ hcall => ?_
  · exact deleteObject_keeps (hrow.stable hs₁) fun h => (hown h).stable hs₁
  · obtain ⟨hextends, hobjects, haborted, hothers⟩ := Bucket.abort_some hcall
    have hfinish : ∀ id m, b.finishOf id = some (.completed m) → s₁.bucket.finishOf id = some (.completed m) := by
      intro i m hf
      by_cases hi : row.r2UploadId = i
      · subst hi
        rw [haborted] at hf
        cases hf
      · rwa [hothers i hi] at hf
    have hmine : own = true → Mine n row.toUploadDeclaration { s₁ with bucket := b } := by
      intro h
      obtain ⟨hf, hopen⟩ := (hown h).stable hs₁
      exact ⟨hextends.finished _ _ hf, hopen⟩
    have hrow₁ : Declared row.toUploadDeclaration s₁ := hrow.stable hs₁
    exact ⟨hi₁.call hextends hobjects hfinish, deleteObject_keeps hrow₁ hmine, fun _ _ _ => trivial⟩

theorem giveUp_keeps {row : UploadRow} {own : Bool} {cause : UploadThrow} (hi : UploadsOk sha256 s)
    (hrow : Declared row.toUploadDeclaration s) (hown : own = true → Mine n row.toUploadDeclaration s) :
    Handles sha256 n Q (giveUp own row cause) s :=
  keeps_bind hi (abortR2_keeps hrow hown) fun _ _ hi₁ _ =>
    keeps_bind hi₁ (markFailed_keeps row none none) fun _ _ _ _ => trivial

/-! ## Requests -/

theorem requireWorkerLease_keeps (buildId workerId token : String) :
    Handles sha256 n (fun _ _ => True) (requireWorkerLease buildId workerId token) s := by
  refine keeps_ofExcept_bind fun _ _ => keeps_read_bind fun s₁ _ _ => ?_
  split
  · trivial
  · split
    · trivial
    · refine keeps_read_bind fun s₂ _ _ => ?_
      split
      · trivial
      · exact fun _ _ _ => trivial

theorem findUpload_declared {p : UploadRow → Bool} {row : UploadRow} {build : UploadBuild}
    (h : findUpload p s = some (row, build)) : Declared row.toUploadDeclaration s := by
  obtain ⟨u, hu, hb⟩ := Option.bind_eq_some_iff.mp h
  obtain ⟨b, -, heq⟩ := Option.map_eq_some_iff.mp hb
  obtain rfl : u = row := (Prod.mk.inj heq).1
  exact ⟨u, List.mem_of_find?_eq_some hu, rfl⟩

/-- The row of a new upload is at a key of its own. -/
theorem insertUpload_ok {row : UploadRow} {timestamp : Int} {s' : UploadState} {ns : List Nat} (hi : UploadsOk sha256 s)
    (hcreated : s.bucket.keyOf row.r2UploadId = some row.objectKey) (hstatus : row.status = .active)
    (hrun : Sql.runAll [insertUpload row timestamp] s 0 = .ok (s', ns)) : UploadsOk sha256 s' ∧ Does n s s' := by
  obtain ⟨s₁, m, ns₁, hfirst, hnil, -⟩ := Sql.runAll_cons_ok.mp hrun
  obtain ⟨rfl, -⟩ := Sql.runAll_nil_ok.mp hnil
  unfold insertUpload at hfirst
  split at hfirst
  · obtain ⟨⟨uploads, k⟩, hinsert, heq⟩ := Fallible.bind_ok.mp hfirst
    cases heq
    obtain ⟨hclash, rfl, -⟩ := Sql.insert_ok.mp hinsert
    have hnew : ∀ u ∈ s.uploads, u.id ≠ row.id ∧ u.objectKey ≠ row.objectKey := by
      intro u hu
      have hfree := hclash u hu
      simp only [Bool.or_eq_false_iff, decide_eq_false_iff_not] at hfree
      exact hfree.1
    exact hi.insert (fun u hu => (hnew u hu).1) (fun u hu => (hnew u hu).2) hstatus hcreated
  · cases hfirst
    exact ⟨hi, refl_of (Does n) s⟩

theorem createUpload_keeps (workerId : String) (build : UploadBuild) (uploadId : String) (input : UploadStart) :
    Handles sha256 n (fun _ _ => True) (createUpload workerId build uploadId input) s := by
  refine callBucket_keeps_bind (fun _ _ _ => trivial) fun s₁ b r2UploadId hi₁ _ hcall => ?_
  obtain ⟨hextends, hkey, hobjects, hfinish⟩ := Bucket.create_some hcall
  have hcalled : UploadsOk sha256 { s₁ with bucket := b } ∧ Does n s₁ { s₁ with bucket := b } :=
    hi₁.call hextends hobjects fun id m hf => by rwa [hfinish] at hf
  refine ⟨hcalled, trivial, keeps_read_bind fun s₂ hi₂ hs₂ => ?_⟩
  refine keeps_bind hi₂ (commit_keeps fun s₃ s₄ ns hi₃ hs₃ hrun => ?_) fun inserted s₃ hi₃ _ => ?_
  · exact insertUpload_ok hi₃ (hs₃.bucket.keys _ _ (hs₂.bucket.keys _ _ hkey)) rfl hrun
  · cases inserted with
    | ok ns => exact fun _ _ _ => trivial
    | error raised =>
      refine keeps_bind hi₃ (abort_keeps _ _) fun _ s₄ _ _ => ?_
      split
      · refine keeps_read_bind fun s₅ _ _ => ?_
        split
        · trivial
        · split
          · exact fun _ hi _ _ => ⟨hi, refl_of (Does n) _, fun _ _ _ => trivial⟩
          · trivial
      · trivial

theorem startMultipartUpload_keeps (workerId buildId uploadId : String) (input : UploadStart) (hi : UploadsOk sha256 s) :
    Handles sha256 n (fun _ _ => True) (startMultipartUpload workerId buildId uploadId input) s := by
  refine keeps_ofExcept_bind fun _ _ => ?_
  refine keeps_bind hi (requireWorkerLease_keeps _ _ _) fun build s₁ _ _ => ?_
  split
  · trivial
  · split
    · trivial
    · refine keeps_read_bind fun s₂ _ _ => keeps_ofExcept_bind fun completed _ => ?_
      cases completed with
      | some artifact =>
        simp only
        split
        · trivial
        · exact fun _ _ _ => trivial
      | none =>
        refine keeps_read_bind fun s₃ hi₃ _ => ?_
        cases hactive : getAnyActiveUploadForBuild buildId s₃ with
        | none => exact createUpload_keeps _ _ _ _
        | some found =>
          have hrow : Declared found.1.toUploadDeclaration s₃ := findUpload_declared hactive
          simp only
          split
          · exact fun _ hi _ _ => ⟨hi, refl_of (Does n) _, fun _ _ _ => trivial⟩
          · split
            · trivial
            · refine keeps_bind hi₃ (abortR2_keeps hrow fun h => nomatch h) fun _ s₄ hi₄ _ => ?_
              exact keeps_bind hi₄ (markFailed_keeps _ _ _) fun _ _ _ _ => createUpload_keeps _ _ _ _

theorem uploadMultipartPart_keeps (etag : Bytes → String) (workerId buildId uploadId : String) (partNumber : Nat)
    (token : String) (body : Bytes) (hi : UploadsOk sha256 s) :
    Handles sha256 n (fun _ _ => True) (uploadMultipartPart sha256 etag workerId buildId uploadId partNumber token body) s := by
  refine keeps_bind hi (requireWorkerLease_keeps _ _ _) fun build s₁ _ _ => keeps_read_bind fun s₂ hi₂ _ => ?_
  cases hfound : getUpload buildId uploadId workerId s₂ with
  | none => trivial
  | some found =>
    have hrow : Declared found.1.toUploadDeclaration s₂ := findUpload_declared hfound
    refine keeps_ofExcept_bind fun _ _ => keeps_ofExcept_bind fun expected _ => ?_
    split
    · trivial
    · refine keeps_read_bind fun s₃ hi₃ hs₃ => ?_
      split
      · split
        · trivial
        · exact fun _ _ _ => trivial
      · have hupload : Handles sha256 n (fun _ _ => True)
            (callBucket (Bucket.uploadPart found.1.objectKey found.1.r2UploadId ⟨partNumber, body, etag body⟩)) s₃ := by
          refine callBucket_keeps fun b b' part hcall => ?_
          obtain ⟨hextends, hobjects, hfinish⟩ := Bucket.uploadPart_some hcall
          exact ⟨hextends, hobjects, fun id m hf => by rwa [hfinish] at hf⟩
        refine handles_bind hi₃ (hrow.stable hs₃) hupload fun uploaded s₄ hi₄ _ hrow₄ => ?_
        split
        · trivial
        · split
          · trivial
          · refine keeps_read_bind fun s₅ hi₅ hs₅ => ?_
            have hcommit : ∀ statement : Sql.Statement UploadState,
                (∀ s' s'' k, statement s' 0 = .ok (s'', k) → s''.uploads = s'.uploads ∧ s''.bucket = s'.bucket ∧
                  s''.removed = s'.removed) → Handles sha256 n (fun _ _ => True) (commit [statement]) s₅ := by
              intro statement hsame
              refine commit_keeps fun s' s'' ns hi' _ hrun => ?_
              obtain ⟨s₁, m, ns₁, hfirst, hnil, -⟩ := Sql.runAll_cons_ok.mp hrun
              obtain ⟨rfl, -⟩ := Sql.runAll_nil_ok.mp hnil
              obtain ⟨huploads, hbucket, hremoved⟩ := hsame _ _ _ hfirst
              exact ⟨(hi'.same (n := n) huploads hbucket hremoved).1, (hi'.same huploads hbucket hremoved).2.1⟩
            refine handles_bind hi₅ (hrow₄.stable hs₅) (hcommit _ fun s' s'' k hrun => ?_) fun inserted s₆ hi₆ _ hrow₆ => ?_
            · unfold insertPart at hrun
              split at hrun
              · split at hrun <;> cases hrun <;> exact ⟨rfl, rfl, rfl⟩
              · cases hrun
                exact ⟨rfl, rfl, rfl⟩
            · cases inserted with
              | error e => exact giveUp_keeps hi₆ hrow₆ fun h => nomatch h
              | ok ns =>
                refine keeps_read_bind fun s₇ hi₇ hs₇ => ?_
                split
                · trivial
                · split
                  · exact giveUp_keeps hi₇ (hrow₆.stable hs₇) fun h => nomatch h
                  · exact fun _ _ _ => trivial

theorem abortMultipartUpload_keeps (workerId buildId uploadId token : String) (hi : UploadsOk sha256 s) :
    Handles sha256 n (fun _ _ => True) (abortMultipartUpload workerId buildId uploadId token) s := by
  refine keeps_bind hi (requireWorkerLease_keeps _ _ _) fun build s₁ _ _ => keeps_read_bind fun s₂ hi₂ _ => ?_
  split
  · trivial
  · refine keeps_ofExcept_bind fun _ _ => keeps_bind hi₂ (abort_keeps _ _) fun aborted s₃ hi₃ _ => ?_
    split
    · trivial
    · refine keeps_read_bind fun s₄ hi₄ _ => ?_
      have hclose : Handles sha256 n (fun _ _ => True) (commit [abortUpload uploadId token s₄.clock]) s₄ :=
        close_keeps (fun _ => rfl) (fun u hp => by simp at hp; exact hp.1.2) fun _ => by simp
      refine keeps_bind hi₄ hclose fun result s₅ _ _ => ?_
      cases result with
      | ok ns => exact fun _ _ _ => trivial
      | error e => trivial

/-! ## Completing -/

/-- What was hashed is the object the request holds, unless something was deleted. -/
theorem hashObject_keeps {row : UploadDeclaration} {bytes : Bytes} (h : Holding n row bytes s) :
    Handles sha256 n (fun hashed s => Mine n row s ∧ ∀ actual, hashed = .ok actual →
      ∃ o, Holding n row o s ∧ actual = ((sha256 o).hex, o.length)) (hashObject sha256 row.objectKey) s := by
  refine fun s₁ hi₁ hs₁ _ => ⟨hi₁, refl_of (Does n) s₁, fun s₂ hi₂ hs₂ => ?_⟩
  refine ⟨(h.1.stable hs₁).stable hs₂, fun actual hactual => ?_⟩
  beta_reduce at hactual
  split at hactual
  · cases hactual
  · split at hactual
    · cases hactual
    · next o ho =>
      split at hactual
      · cases hactual
      · cases hactual
        have hholding : Holding n row o s₁ := ⟨(h.stable hs₁).1, fun _ => ho⟩
        exact ⟨o, hholding.stable hs₂, rfl⟩

/-- The artifact is of other tables. -/
theorem recordArtifact_same {row : UploadRow} {workerId token : String} {build : UploadBuild} {actual : String × Nat}
    {timestamp : Int} {s' : UploadState} {m k : Nat}
    (h : recordArtifact row workerId token build actual timestamp s m = .ok (s', k)) :
    s'.uploads = s.uploads ∧ s'.bucket = s.bucket ∧ s'.removed = s.removed := by
  unfold recordArtifact at h
  extract_lets at h
  split at h
  · split at h <;> cases h <;> exact ⟨rfl, rfl, rfl⟩
  · cases h
    exact ⟨rfl, rfl, rfl⟩

theorem Does.of_same {s₁ s₂ : UploadState} (huploads : s₁.uploads = s.uploads) (hbucket : s₁.bucket = s.bucket)
    (hremoved : s₁.removed = s.removed) (h : Does n s₁ s₂) : Does n s s₂ :=
  ⟨hbucket ▸ h.bucket, huploads ▸ hbucket ▸ h.rows, hremoved ▸ h.removed, huploads ▸ hbucket ▸ h.objects⟩

/-- A row is completed with what its object was found to be. -/
theorem recordUpload_keeps {row : UploadRow} {bytes : Bytes} (workerId token : String) (build : UploadBuild)
    (h : Holding n row.toUploadDeclaration bytes s) (hsha : (sha256 bytes).hex = row.expectedSha256)
    (hsize : bytes.length = row.expectedSize) :
    Handles sha256 n (fun _ _ => True)
      (recordUpload row workerId token build ((sha256 bytes).hex, bytes.length)) s := by
  refine keeps_read_bind fun s₁ hi₁ hs₁ => ?_
  refine keeps_bind hi₁ (commit_keeps fun s₂ s₃ ns hi₂ hs₂ hrun => ?_) fun recorded s₂ hi₂ _ => ?_
  · obtain ⟨s', m, ns', hartifact, hrest, -⟩ := Sql.runAll_cons_ok.mp hrun
    obtain ⟨s'', k, ns'', hupload, hnil, -⟩ := Sql.runAll_cons_ok.mp hrest
    obtain ⟨rfl, -⟩ := Sql.runAll_nil_ok.mp hnil
    cases hupload
    obtain ⟨huploads, hbucket, hremoved⟩ := recordArtifact_same hartifact
    obtain ⟨⟨hf, v, hv, hsame, -⟩, hobject⟩ := (h.stable hs₁).stable hs₂
    have hi' := (hi₂.same (n := n) huploads hbucket hremoved).1
    have hstep := hi'.update (n := n) (p := fun u => u.id = row.id && u.status = .active && m = 1)
      (f := fun u => { u with status := .completed, actualSha256 := some (sha256 bytes).hex,
                              actualSize := some bytes.length, completedAt := some s₁.clock })
      (fun _ => rfl) (fun u _ hp => by simp at hp; exact hp.1.2) (fun u hu hp _ => by
        -- the row is the one whose object the request holds
        have hid : u.id = row.id := by simp at hp; exact hp.1.1
        obtain rfl := hi'.eq_of_id hu (huploads ▸ hv) (hid.trans (congrArg UploadDeclaration.id hsame).symm)
        refine ⟨?_, ?_, ?_, fun hzero => ⟨bytes, ?_, ?_, ?_⟩⟩
        · rw [hbucket, congrArg UploadDeclaration.r2UploadId hsame]
          exact hf
        · rw [hsha, congrArg UploadDeclaration.expectedSha256 hsame]
        · rw [hsize, congrArg UploadDeclaration.expectedSize hsame]
        · rw [hbucket, congrArg UploadDeclaration.objectKey hsame]
          exact hobject (hremoved ▸ hzero)
        · rw [hsha, congrArg UploadDeclaration.expectedSha256 hsame]
        · rw [hsize, congrArg UploadDeclaration.expectedSize hsame])
    exact ⟨hstep.1, hstep.2.of_same huploads hbucket hremoved⟩
  · cases recorded with
    | error e => exact keeps_bind hi₂ (markFailed_keeps _ _ _) fun _ _ _ _ => trivial
    | ok ns =>
      refine keeps_read_bind fun s₃ hi₃ _ => ?_
      split
      · exact keeps_bind hi₃ (markFailed_keeps _ _ _) fun _ _ _ _ => trivial
      · split
        · exact keeps_bind hi₃ (markFailed_keeps _ _ _) fun _ _ _ _ => trivial
        · exact keeps_ofExcept fun _ _ _ _ _ => trivial

theorem assembleUpload_keeps {row : UploadRow} (workerId token : String) (build : UploadBuild) (parts : List UploadPartRow)
    (hrow : Declared row.toUploadDeclaration s) :
    Handles sha256 n (fun _ _ => True) (assembleUpload sha256 n row workerId token build parts) s := by
  refine callBucket_keeps_bind (fun s₁ hi₁ hs₁ => ?_) fun s₁ b bytes hi₁ hs₁ hcall => ?_
  · exact giveUp_keeps hi₁ (hrow.stable hs₁) fun h => nomatch h
  · obtain ⟨hi₂, hdoes, hholding⟩ := hi₁.complete (hrow.stable hs₁) hcall
    refine ⟨⟨hi₂, hdoes⟩, giveUp_keeps hi₂ hholding.1.declared fun _ => hholding.1, ?_⟩
    refine keeps_bind hi₂ (hashObject_keeps hholding) fun hashed s₃ hi₃ ⟨hmine, hhashed⟩ => ?_
    have hdelete : Handles sha256 n (fun _ _ => True) (deleteObject true row.objectKey) s₃ :=
      deleteObject_keeps hmine.declared fun _ => hmine
    cases hashed with
    | error cause =>
      refine keeps_bind hi₃ hdelete fun _ s₄ hi₄ _ => ?_
      exact keeps_bind hi₄ (markFailed_keeps _ _ _) fun _ _ _ _ => trivial
    | ok actual =>
      obtain ⟨o, ho, rfl⟩ := hhashed actual rfl
      simp only
      split
      · refine keeps_bind hi₃ hdelete fun _ s₄ hi₄ _ => ?_
        exact keeps_bind hi₄ (markFailed_keeps _ _ _) fun _ _ _ _ => trivial
      · next hsame =>
        simp only [not_or, ne_eq, Classical.not_not] at hsame
        exact recordUpload_keeps workerId token build ho hsame.1 hsame.2

theorem completeMultipartUpload_keeps (workerId buildId uploadId token : String) (s : UploadState) :
    Handles sha256 n (fun _ _ => True) (completeMultipartUpload sha256 n workerId buildId uploadId token) s := by
  refine keeps_ofExcept_bind fun _ _ => keeps_read_bind fun s₁ hi₁ _ => ?_
  cases hfound : getUpload buildId uploadId workerId s₁ with
  | none => trivial
  | some found =>
    have hrow : Declared found.1.toUploadDeclaration s₁ := findUpload_declared hfound
    simp only
    split
    · trivial
    · refine handles_bind hi₁ hrow (requireWorkerLease_keeps _ _ _) fun build s₂ _ _ hrow₂ => ?_
      split
      · trivial
      · split
        · exact keeps_ofExcept fun _ _ _ _ _ => trivial
        · split
          · trivial
          · refine keeps_ofExcept_bind fun _ _ => keeps_read_bind fun s₃ hi₃ hs₃ => ?_
            have hrow₃ := hrow₂.stable hs₃
            split
            · exact giveUp_keeps hi₃ hrow₃ fun h => nomatch h
            · split
              · exact giveUp_keeps hi₃ hrow₃ fun h => nomatch h
              · exact assembleUpload_keeps workerId token build _ hrow₃

end

/-! ## Any order of requests -/

/-- Worker requests, each with its place among all requests. -/
inductive UploadRequest (etag : Bytes → String) : Nat → Prog UploadState UploadThrow Unit → Prop where
  | start (n : Nat) (workerId buildId uploadId : String) (input : UploadStart) :
      UploadRequest etag n (do let _ ← startMultipartUpload workerId buildId uploadId input)
  | part (n : Nat) (workerId buildId uploadId : String) (partNumber : Nat) (token : String) (body : Bytes) :
      UploadRequest etag n (do let _ ← uploadMultipartPart sha256 etag workerId buildId uploadId partNumber token body)
  | complete (n : Nat) (workerId buildId uploadId token : String) :
      UploadRequest etag n (do let _ ← completeMultipartUpload sha256 n workerId buildId uploadId token)
  | abort (n : Nat) (workerId buildId uploadId token : String) :
      UploadRequest etag n (abortMultipartUpload workerId buildId uploadId token)

/-- What changes besides: the clock, leases and other tables, and how calls to the stores end. -/
def Outside (s s' : UploadState) : Prop :=
  s'.uploads = s.uploads ∧ s'.parts = s.parts ∧ s'.bucket = s.bucket ∧ s'.removed = s.removed

theorem agree (etag : Bytes → String) :
    Pool.Agree (UploadRequest sha256 etag) Outside (UploadsOk sha256) (fun _ _ => True) Does Leaves (fun _ _ => True) where
  refl _ := inferInstance
  trans _ := inferInstance
  start := by
    intro n p s hp hi
    cases hp with
    | start => exact keeps_bind hi (startMultipartUpload_keeps _ _ _ _ hi) fun _ _ _ _ _ _ _ => trivial
    | part => exact keeps_bind hi (uploadMultipartPart_keeps etag _ _ _ _ _ _ hi) fun _ _ _ _ _ _ _ => trivial
    | complete => exact keeps_bind hi (completeMultipartUpload_keeps _ _ _ _ s) fun _ _ _ _ _ _ _ => trivial
    | abort => exact abortMultipartUpload_keeps _ _ _ _ hi
  others hmn _ _ hdoes := hdoes.others hmn
  outside := by
    rintro s s' ⟨huploads, -, hbucket, hremoved⟩ hi
    exact ⟨(hi.same (n := 0) huploads hbucket hremoved).1, fun n => (hi.same huploads hbucket hremoved).2.2⟩

/-- Nothing was uploaded yet. -/
def Fresh (s : UploadState) : Prop := s.uploads = [] ∧ s.parts = [] ∧ s.bucket.uploads = [] ∧ s.removed = 0

theorem fresh_ok {s : UploadState} (h : Fresh s) : UploadsOk sha256 s := by
  obtain ⟨huploads, -, hbucket, -⟩ := h
  refine ⟨by simp [huploads], by simp [huploads], by simp [huploads], fun id m hf => ?_, by simp [huploads]⟩
  simp [Bucket.finishOf, hbucket] at hf

def sampleUploadBuild : UploadBuild :=
  ⟨"b", some "w", some "t", some 2000, 1, .leased, .binary, none, none, none, none, none⟩

def sampleUploads : UploadState where
  clock := 1000
  builds := [sampleUploadBuild]
  artifacts := []
  uploads := []
  parts := []
  bucket := ⟨fun _ => none, []⟩
  admits _ _ := true
  storage := .works
  database := .works
  removed := 0

def sampleUploadStart : UploadStart := ⟨"t", "a.pkg.tar.zst", 1, (anyHash []).hex⟩

/-- An upload of one part, and two requests that complete it. -/
def completionsStarted : Pool UploadState UploadThrow Unit :=
  (((((⟨sampleUploads, []⟩ : Pool UploadState UploadThrow Unit).starting
    (do let _ ← startMultipartUpload "w" "b" "u" sampleUploadStart)).starting
    (do let _ ← uploadMultipartPart anyHash (fun _ => "e") "w" "b" "u" 1 "t" [7])).turns
      (List.replicate 7 0 ++ List.replicate 8 1)).starting
    (do let _ ← completeMultipartUpload anyHash 2 "w" "b" "u" "t")).starting
    (do let _ ← completeMultipartUpload anyHash 3 "w" "b" "u" "t")

/-- Both find the upload active, and the first completes it. -/
def firstCompleted : Pool UploadState UploadThrow Unit :=
  completionsStarted.turns (List.replicate 4 3 ++ List.replicate 9 2)

/-- The second finds nothing to put together or to abort, and deletes the object. -/
def secondGaveUp : Pool UploadState UploadThrow Unit := firstCompleted.turns (List.replicate 3 3)

theorem firstCompleted_steps :
    Pool.Steps (UploadRequest anyHash fun _ => "e") Outside ⟨sampleUploads, []⟩ firstCompleted := by
  have hstart : Pool.Steps (UploadRequest anyHash fun _ => "e") Outside ⟨sampleUploads, []⟩
      (⟨sampleUploads, []⟩ : Pool UploadState UploadThrow Unit) := .refl
  have huploaded := ((hstart.starting (.start _ "w" "b" "u" sampleUploadStart)).starting
    (.part _ "w" "b" "u" 1 "t" [7])).turns (List.replicate 7 0 ++ List.replicate 8 1)
  have hfirst := huploaded.starting (p := (do let _ ← completeMultipartUpload anyHash 2 "w" "b" "u" "t"))
    (by simpa using UploadRequest.complete 2 "w" "b" "u" "t")
  have hsecond := hfirst.starting (p := (do let _ ← completeMultipartUpload anyHash 3 "w" "b" "u" "t"))
    (by simpa using UploadRequest.complete 3 "w" "b" "u" "t")
  exact hsecond.turns _

theorem firstCompleted_view :
    firstCompleted.state.uploads.map (·.status) = [.completed] ∧ firstCompleted.state.removed = 0 := by decide +kernel

theorem secondGaveUp_view :
    (secondGaveUp.state.uploads.map fun u => (u.status, secondGaveUp.state.bucket.objects u.objectKey)) =
      [(.completed, none)] := by
  decide +kernel

end Omapkg.Server.Uploads
