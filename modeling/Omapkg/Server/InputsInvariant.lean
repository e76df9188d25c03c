import Mathlib.Data.Set.Function
import Omapkg.Lib.Pool
import Omapkg.Server.Inputs
/-!
# What retained inputs keep

Whatever the order of requests, and wherever they stop, a registered input's
object is stored and is what its row says, and stays so. A document is its
object's text as long as no object is a document after a byte order mark.
-/

namespace Omapkg.Server.Inputs

open Utf Prog Multipart

variable (rt : InputRuntime) (S : Set Bytes)

/-- The object at a key is what `ref` names. -/
def Stored (ref : InputObject) (key : String) (s : InputState) : Prop :=
  ∃ bytes, s.bucket.objects key = some bytes ∧ (rt.sha256 bytes).hex = ref.sha256 ∧ bytes.length = ref.size

/-- The document's text is in canonical form, and its bytes have its digest. -/
structure Indexed (d : InputDocumentRow) : Prop where
  mem : encode d.canonicalJson.toList ∈ S
  digest : (rt.sha256 (encode d.canonicalJson.toList)).hex = d.sha256
  canonical : isCanonical rt d.canonicalJson.toList = true

structure InputsOk (s : InputState) : Prop where
  ids : (s.uploads.map (·.id)).Nodup
  keys : (s.uploads.map (·.objectKey)).Nodup
  created : ∀ u ∈ s.uploads, s.bucket.keyOf u.r2UploadId = some u.objectKey
  apart : ∀ u ∈ s.uploads, ∀ digest, u.objectKey ≠ retainedKey digest
  sourced : ∀ key bytes, s.bucket.objects key = some bytes → bytes ∈ S ∧
    (key = retainedKey (rt.sha256 bytes).hex ∨ ∃ u ∈ s.uploads, u.objectKey = key ∧ s.bucket.finishOf u.r2UploadId ≠ none)
  registered : ∀ r ∈ s.inputObjects, Stored rt r.toInputObject r.objectKey s
  indexed : ∀ d ∈ s.inputDocuments, Indexed rt S d
  complete : ∀ u ∈ s.uploads, u.status = .complete → ∃ r ∈ s.inputObjects, r.toInputObject = u.toInputObject

/-- Objects and rows stay as they are, and so do the declarations of uploads. -/
structure Grows (s s' : InputState) : Prop where
  bucket : s.bucket.Extends s'.bucket
  objects : ∀ key bytes, s.bucket.objects key = some bytes → s'.bucket.objects key = some bytes
  uploads : ∀ u ∈ s.uploads, ∃ u' ∈ s'.uploads, u'.toUploadDeclaration = u.toUploadDeclaration
  rows : ∀ r ∈ s.inputObjects, r ∈ s'.inputObjects

/-- What is stored after a step is in `S`. -/
def StoresIn (_ s' : InputState) : Prop := ∀ key bytes, s'.bucket.objects key = some bytes → bytes ∈ S

instance : Std.Refl Grows where
  refl _ := ⟨.refl _, fun _ _ h => h, fun u hu => ⟨u, hu, rfl⟩, fun _ h => h⟩

theorem Grows.trans {s s' s'' : InputState} (h : Grows s s') (h' : Grows s' s'') : Grows s s'' where
  bucket := h.bucket.trans h'.bucket
  objects key bytes ho := h'.objects key bytes (h.objects key bytes ho)
  uploads u hu := by
    obtain ⟨u', hu', hsame⟩ := h.uploads u hu
    obtain ⟨u'', hu'', hsame'⟩ := h'.uploads u' hu'
    exact ⟨u'', hu'', hsame'.trans hsame⟩
  rows r hr := h'.rows r (h.rows r hr)

instance : IsTrans InputState Grows := ⟨fun _ _ _ => Grows.trans⟩

/-- The upload's row is in the table. -/
def Declared (row : Upload) (s : InputState) : Prop := ∃ u ∈ s.uploads, u.toUploadDeclaration = row.toUploadDeclaration

section
variable {rt S} {s s' : InputState}

theorem Stored.grows {ref : InputObject} {key : String} (h : Stored rt ref key s) (hs : Grows s s') :
    Stored rt ref key s' := by
  obtain ⟨bytes, ho, hdigest, hsize⟩ := h
  exact ⟨bytes, hs.objects key bytes ho, hdigest, hsize⟩

theorem Declared.grows {row : Upload} (h : Declared row s) (hs : Grows s s') : Declared row s' := by
  obtain ⟨u, hu, hrow⟩ := h
  obtain ⟨u', hu', hsame⟩ := hs.uploads u hu
  exact ⟨u', hu', hsame.trans hrow⟩

/-- The row of a declared upload's id is that upload's. -/
theorem InputsOk.declared (h : InputsOk rt S s) {row u : Upload} (hrow : Declared row s) (hu : u ∈ s.uploads)
    (hid : u.id = row.id) : u.toUploadDeclaration = row.toUploadDeclaration := by
  obtain ⟨v, hv, hsame⟩ := hrow
  have hvid : v.id = row.id := congrArg UploadDeclaration.id hsame
  obtain rfl : u = v := List.inj_on_of_nodup_map h.ids hu hv (hid.trans hvid.symm)
  exact hsame

/-! ## Documents -/

theorem withoutMark_of_ne {cs : List Char} (h : cs.head? ≠ some byteOrderMark) : withoutMark cs = cs := by
  cases cs with
  | nil => rfl
  | cons c cs =>
    have hc : c ≠ byteOrderMark := fun hc => h (by rw [hc]; rfl)
    exact if_neg hc

/-- The bytes are a document once a byte order mark is taken off. -/
def Marked (rt : InputRuntime) (bytes : Bytes) : Prop :=
  (decode bytes).head? = some byteOrderMark ∧ (documentText rt bytes).isSome = true

/-- Bytes without a mark are indexed by their own text. -/
theorem documentText_own {bytes : Bytes} {text : List Char} (h : documentText rt bytes = some text)
    (hmark : ¬Marked rt bytes) : encode text = bytes ∧ isCanonical rt text = true := by
  have hhead : (decode bytes).head? ≠ some byteOrderMark := fun hhead => hmark ⟨hhead, by rw [h]; rfl⟩
  unfold documentText at h
  split at h
  · cases h
  · obtain ⟨hdecoded, hcanonical⟩ := Option.filter_eq_some_iff.mp h
    unfold decodeText at hdecoded
    split at hdecoded
    · next hvalid =>
      rw [withoutMark_of_ne hhead] at hdecoded
      cases hdecoded
      exact ⟨hvalid, hcanonical⟩
    · cases hdecoded

/-! ## Steps on the rows -/

/-- A step that adds rows of stored objects and of documents. -/
theorem InputsOk.tables (h : InputsOk rt S s) (huploads : s'.uploads = s.uploads) (hbucket : s'.bucket = s.bucket)
    (hkept : ∀ r ∈ s.inputObjects, r ∈ s'.inputObjects)
    (hrows : ∀ r ∈ s'.inputObjects, r ∈ s.inputObjects ∨ Stored rt r.toInputObject r.objectKey s)
    (hdocuments : ∀ d ∈ s'.inputDocuments, d ∈ s.inputDocuments ∨ Indexed rt S d) : InputsOk rt S s' ∧ Grows s s' := by
  refine ⟨⟨huploads ▸ h.ids, huploads ▸ h.keys, ?_, ?_, ?_, ?_, ?_, ?_⟩,
    ⟨hbucket ▸ .refl _, fun key bytes ho => by rwa [hbucket], fun u hu => ⟨u, huploads ▸ hu, rfl⟩, hkept⟩⟩
  · rw [huploads, hbucket]
    exact h.created
  · rw [huploads]
    exact h.apart
  · rw [huploads, hbucket]
    exact h.sourced
  · intro r hr
    unfold Stored
    rw [hbucket]
    rcases hrows r hr with hold | hnew
    · exact h.registered r hold
    · exact hnew
  · intro d hd
    rcases hdocuments d hd with hold | hnew
    · exact h.indexed d hold
    · exact hnew
  · rw [huploads]
    intro u hu hc
    obtain ⟨r, hr, hsame⟩ := h.complete u hu hc
    exact ⟨r, hkept r hr, hsame⟩

theorem InputsOk.insertObject (h : InputsOk rt S s) {row : InputObjectRow} {n n' : Nat}
    (hrow : Stored rt row.toInputObject row.objectKey s) (hs : insertObject row s n = .ok (s', n')) :
    InputsOk rt S s' ∧ Grows s s' := by
  unfold Inputs.insertObject at hs
  split at hs
  · cases hs
    exact ⟨h, refl_of Grows s⟩
  · cases hs
    refine h.tables (by rfl) (by rfl) ?_ ?_ ?_
    · exact fun r hr => List.mem_append_left _ hr
    · intro r hr
      rcases List.mem_append.mp hr with hold | hnew
      · exact .inl hold
      · obtain rfl := List.mem_singleton.mp hnew
        exact .inr hrow
    · exact fun d hd => .inl hd

theorem InputsOk.insertDocument (h : InputsOk rt S s) {row : InputDocumentRow} {n n' : Nat} (hrow : Indexed rt S row)
    (hs : insertDocument row s n = .ok (s', n')) : InputsOk rt S s' ∧ Grows s s' := by
  unfold Inputs.insertDocument at hs
  split at hs
  · cases hs
    exact ⟨h, refl_of Grows s⟩
  · split at hs
    · cases hs
      refine h.tables (by rfl) (by rfl) ?_ ?_ ?_
      · exact fun r hr => hr
      · exact fun r hr => .inl hr
      · intro d hd
        rcases List.mem_append.mp hd with hold | hnew
        · exact .inl hold
        · obtain rfl := List.mem_singleton.mp hnew
          exact .inr hrow
    · cases hs

theorem InputsOk.insertPart (h : InputsOk rt S s) {part : Part} {now : Int} {n n' : Nat}
    (hs : insertPart part now s n = .ok (s', n')) : InputsOk rt S s' ∧ Grows s s' := by
  unfold Inputs.insertPart at hs
  split at hs
  · cases hs
    exact h.tables (by rfl) (by rfl) (fun _ hr => hr) (fun _ hr => .inl hr) fun _ hd => .inl hd
  · cases hs
    exact ⟨h, refl_of Grows s⟩

/-- An update that completes only uploads whose input is registered. -/
theorem InputsOk.updateUploads (h : InputsOk rt S s) {p : Upload → Bool} {status : UploadStatus} {n n' : Nat}
    (hcomplete : ∀ u ∈ s.uploads, p u = true → status = .complete → ∃ r ∈ s.inputObjects, r.toInputObject = u.toInputObject)
    (hs : updateUploads p status s n = .ok (s', n')) : InputsOk rt S s' ∧ Grows s s' := by
  have hs' : s' = { s with uploads := (Sql.update p (fun u => { u with status := status }) s.uploads).1 } := by
    cases hs
    rfl
  subst hs'
  -- every row after the update has the declaration of one before it
  have hsame : ∀ u : Upload, (if p u = true then { u with status := status } else u).toUploadDeclaration =
      u.toUploadDeclaration := by
    intro u
    split
    · rfl
    · rfl
  have hfield {α : Type} (field : UploadDeclaration → α) (u : Upload) :
      field (if p u = true then { u with status := status } else u).toUploadDeclaration = field u.toUploadDeclaration := by
    rw [hsame]
  refine ⟨⟨?_, ?_, ?_, ?_, fun key bytes ho => ?_, h.registered, h.indexed, ?_⟩,
    ⟨.refl _, fun _ _ ho => ho, fun u hu => ⟨_, Sql.mem_update.mpr ⟨u, hu, rfl⟩, hsame u⟩, fun _ hr => hr⟩⟩
  · rw [Sql.map_update (f := fun u : Upload => { u with status := status }) fun u _ => rfl]
    exact h.ids
  · rw [Sql.map_update (f := fun u : Upload => { u with status := status }) fun u _ => rfl]
    exact h.keys
  · intro u' hu'
    obtain ⟨u, hu, rfl⟩ := Sql.mem_update.mp hu'
    rw [hfield (·.r2UploadId) u, hfield (·.objectKey) u]
    exact h.created u hu
  · intro u' hu'
    obtain ⟨u, hu, rfl⟩ := Sql.mem_update.mp hu'
    rw [hfield (·.objectKey) u]
    exact h.apart u hu
  · obtain ⟨hmem, hretained | ⟨u, hu, hkey, hfinished⟩⟩ := h.sourced key bytes ho
    · exact ⟨hmem, .inl hretained⟩
    · refine ⟨hmem, .inr ⟨_, Sql.mem_update.mpr ⟨u, hu, rfl⟩, ?_, ?_⟩⟩
      · rw [hfield (·.objectKey) u, hkey]
      · rw [hfield (·.r2UploadId) u]
        exact hfinished
  · intro u' hu' hc
    obtain ⟨u, hu, rfl⟩ := Sql.mem_update.mp hu'
    by_cases hp : p u = true
    · rw [if_pos hp] at hc ⊢
      exact hcomplete u hu hp hc
    · rw [if_neg hp] at hc ⊢
      exact h.complete u hu hc

theorem take_append {start rest : String} {n : Nat} (h : n ≤ start.toList.length) :
    (start ++ rest).toList.take n = start.toList.take n := by
  rw [String.toList_append, List.take_append_of_le_length h]

theorem uploadKey_ne_retainedKey (uploadId digest digest' : String) : uploadKey uploadId digest ≠ retainedKey digest' := by
  intro h
  have hupload : (uploadKey uploadId digest).toList.take 16 = "private/inputs/uploads/".toList.take 16 :=
    take_append (by decide +kernel)
  have hretained : (retainedKey digest').toList.take 16 = "private/inputs/retained/".toList.take 16 :=
    take_append (by decide +kernel)
  rw [h, hretained] at hupload
  exact absurd hupload (by decide +kernel)

theorem InputsOk.insertUpload (h : InputsOk rt S s) {row : Upload} {n n' : Nat}
    (hcreated : s.bucket.keyOf row.r2UploadId = some row.objectKey)
    (hapart : ∀ digest, row.objectKey ≠ retainedKey digest) (hactive : row.status = .active)
    (hs : insertUpload row s n = .ok (s', n')) : InputsOk rt S s' ∧ Grows s s' := by
  simp only [Inputs.insertUpload, Fallible.bind_ok, Prod.exists, Except.ok.injEq, Prod.mk.injEq, Sql.insert_ok] at hs
  obtain ⟨uploads, k, ⟨hclash, rfl, rfl⟩, rfl, rfl⟩ := hs
  have hclear : ∀ u ∈ s.uploads, u.id ≠ row.id ∧ u.objectKey ≠ row.objectKey := by
    intro u hu
    have hu' := hclash u hu
    simp only [Bool.or_eq_false_iff, decide_eq_false_iff_not] at hu'
    exact ⟨hu'.1.1, hu'.1.2⟩
  have hmem : ∀ u ∈ s.uploads ++ [row], u ∈ s.uploads ∨ u = row := by
    intro u hu
    simpa using hu
  refine ⟨⟨?_, ?_, ?_, ?_, fun key bytes ho => ?_, h.registered, h.indexed, ?_⟩,
    ⟨.refl _, fun _ _ ho => ho, fun u hu => ⟨u, List.mem_append_left _ hu, rfl⟩, fun _ hr => hr⟩⟩
  · rw [List.map_append, List.nodup_append]
    refine ⟨h.ids, by simp, ?_⟩
    simp only [List.mem_map, List.map_cons, List.map_nil, List.mem_singleton]
    rintro _ ⟨u, hu, rfl⟩ _ rfl
    exact (hclear u hu).1
  · rw [List.map_append, List.nodup_append]
    refine ⟨h.keys, by simp, ?_⟩
    simp only [List.mem_map, List.map_cons, List.map_nil, List.mem_singleton]
    rintro _ ⟨u, hu, rfl⟩ _ rfl
    exact (hclear u hu).2
  · intro u hu
    rcases hmem u hu with hold | rfl
    · exact h.created u hold
    · exact hcreated
  · intro u hu
    rcases hmem u hu with hold | rfl
    · exact h.apart u hold
    · exact hapart
  · obtain ⟨hmem, hretained | ⟨u, hu, hkey, hfinished⟩⟩ := h.sourced key bytes ho
    · exact ⟨hmem, .inl hretained⟩
    · exact ⟨hmem, .inr ⟨u, List.mem_append_left _ hu, hkey, hfinished⟩⟩
  · intro u hu hc
    rcases hmem u hu with hold | rfl
    · exact h.complete u hold hc
    · rw [hactive] at hc
      cases hc

/-! ## Steps on the bucket -/

/-- A step that keeps what is stored. -/
theorem InputsOk.bucket (h : InputsOk rt S s) {b : Bucket String} (hextends : s.bucket.Extends b)
    (hkept : ∀ key bytes, s.bucket.objects key = some bytes → b.objects key = some bytes)
    (hnew : ∀ key bytes, b.objects key = some bytes → s.bucket.objects key = some bytes ∨ bytes ∈ S ∧
      (key = retainedKey (rt.sha256 bytes).hex ∨ ∃ u ∈ s.uploads, u.objectKey = key ∧ b.finishOf u.r2UploadId ≠ none)) :
    InputsOk rt S { s with bucket := b } ∧ Grows s { s with bucket := b } := by
  have hgrows : Grows s { s with bucket := b } := ⟨hextends, hkept, fun u hu => ⟨u, hu, rfl⟩, fun _ hr => hr⟩
  refine ⟨⟨h.ids, h.keys, fun u hu => hextends.keys _ _ (h.created u hu), h.apart, fun key bytes ho => ?_,
    fun r hr => (h.registered r hr).grows hgrows, h.indexed, h.complete⟩, hgrows⟩
  rcases hnew key bytes ho with hold | hnew
  · obtain ⟨hmem, hretained | ⟨u, hu, hkey, hfinished⟩⟩ := h.sourced key bytes hold
    · exact ⟨hmem, .inl hretained⟩
    · refine ⟨hmem, .inr ⟨u, hu, hkey, ?_⟩⟩
      obtain ⟨f, hf⟩ := Option.ne_none_iff_exists'.mp hfinished
      exact fun hnone => nomatch hnone.symm.trans (hextends.finished _ _ hf)
  · exact hnew

/-- A call that changes no object. -/
theorem InputsOk.call (h : InputsOk rt S s) {b : Bucket String} (hextends : s.bucket.Extends b)
    (hobjects : b.objects = s.bucket.objects) :
    InputsOk rt S { s with bucket := b } ∧ Grows s { s with bucket := b } := by
  apply h.bucket hextends
  · intro key bytes ho
    rwa [hobjects]
  · intro key bytes ho
    rw [hobjects] at ho
    exact .inl ho

/-- Putting an upload's parts together stores an object where none was. -/
theorem InputsOk.assemble (h : InputsOk rt S s) {row : Upload} (hrow : Declared row s) {n : Nat} {b : Bucket String}
    {listed : List (Nat × String)} {bytes : Bytes}
    (hcomplete : s.bucket.complete n row.objectKey row.r2UploadId listed = some (b, bytes))
    (hstores : StoresIn S s { s with bucket := b }) :
    InputsOk rt S { s with bucket := b } ∧ Grows s { s with bucket := b } := by
  obtain ⟨hextends, hobjects, hopen, -, hdone, -⟩ := Bucket.complete_some hcomplete
  obtain ⟨u, hu, hsame⟩ := hrow
  have hkey : u.objectKey = row.objectKey := congrArg UploadDeclaration.objectKey hsame
  have hid : u.r2UploadId = row.r2UploadId := congrArg UploadDeclaration.r2UploadId hsame
  -- an object at the upload's key would be that of a finished upload
  have hfree : s.bucket.objects row.objectKey = none := by
    cases hobject : s.bucket.objects row.objectKey with
    | none => rfl
    | some old =>
      obtain ⟨-, hretained | ⟨v, hv, hvkey, hfinished⟩⟩ := h.sourced _ _ hobject
      · exact absurd (hkey.trans hretained) (h.apart u hu _)
      · obtain rfl : v = u := List.inj_on_of_nodup_map h.keys hv hu (hvkey.trans hkey.symm)
        rw [hid] at hfinished
        exact absurd hopen hfinished
  apply h.bucket hextends
  · intro key old ho
    have hne : key ≠ row.objectKey := by
      rintro rfl
      rw [hfree] at ho
      cases ho
    rwa [hobjects, Function.update_of_ne hne]
  · intro key new ho
    by_cases heq : key = row.objectKey
    · refine .inr ⟨hstores key new ho, .inr ⟨u, hu, hkey.trans heq.symm, ?_⟩⟩
      rw [hid, hdone]
      exact Option.some_ne_none _
    · rw [hobjects, Function.update_of_ne heq] at ho
      exact .inl ho

theorem retainedKey_injective {digest digest' : String} (h : retainedKey digest = retainedKey digest') :
    digest = digest' := by
  unfold retainedKey at h
  have hlists : ("private/inputs/retained/" ++ digest).toList = ("private/inputs/retained/" ++ digest').toList := by rw [h]
  simp only [String.toList_append] at hlists
  exact String.toList_injective (List.append_cancel_left hlists)

/-- Bytes stored under their own digest replace none but themselves. -/
theorem InputsOk.put (hhash : Set.InjOn (fun bytes => (rt.sha256 bytes).hex) S) (h : InputsOk rt S s) {bytes : Bytes}
    (hmem : bytes ∈ S) : InputsOk rt S (putObject (retainedKey (rt.sha256 bytes).hex) bytes s) ∧
      Grows s (putObject (retainedKey (rt.sha256 bytes).hex) bytes s) := by
  apply h.bucket
  · exact ⟨fun _ _ hk => hk, fun _ _ hf => hf⟩
  · intro key old ho
    by_cases heq : key = retainedKey (rt.sha256 bytes).hex
    · subst heq
      obtain ⟨hold, hretained | ⟨u, hu, hkey, -⟩⟩ := h.sourced _ _ ho
      · have hhex : (rt.sha256 bytes).hex = (rt.sha256 old).hex := retainedKey_injective hretained
        rw [hhash hold hmem hhex.symm]
        exact Function.update_self ..
      · exact absurd hkey (h.apart u hu _)
    · show Function.update s.bucket.objects (retainedKey (rt.sha256 bytes).hex) (some bytes) key = some old
      rwa [Function.update_of_ne heq]
  · intro key new ho
    have ho' : Function.update s.bucket.objects (retainedKey (rt.sha256 bytes).hex) (some bytes) key = some new := ho
    by_cases heq : key = retainedKey (rt.sha256 bytes).hex
    · rw [heq, Function.update_self] at ho'
      cases ho'
      exact .inr ⟨hmem, .inl heq⟩
    · rw [Function.update_of_ne heq] at ho'
      exact .inl ho'

end

end Omapkg.Server.Inputs
