import Mathlib.Data.List.Basic
import Mathlib.Logic.Function.Basic
import Mathlib.Tactic.Common
/-!
# Object stores with multipart uploads

Objects by key, and uploads whose parts are put together when they are
completed. An upload is finished once, completed or aborted; anything asked of
a finished upload fails. A completed upload remembers who completed it.
-/

namespace Multipart

inductive Finish where
  | completed (owner : Nat)
  | aborted
  deriving DecidableEq, Repr

structure Part where
  number : Nat
  bytes : List UInt8
  etag : String

structure Upload (κ : Type) where
  key : κ
  parts : List Part
  finish : Option Finish

/-- The uploads are in the order they were created; an upload's id is its place. -/
structure Bucket (κ : Type) where
  objects : κ → Option (List UInt8)
  uploads : List (Upload κ)

namespace Bucket

variable {κ : Type}

def keyOf (b : Bucket κ) (id : Nat) : Option κ := b.uploads[id]?.map (·.key)

def finishOf (b : Bucket κ) (id : Nat) : Option Finish := b.uploads[id]?.bind (·.finish)

/-! ## Operations -/

def create (key : κ) (b : Bucket κ) : Option (Bucket κ × Nat) :=
  some ({ b with uploads := b.uploads ++ [⟨key, [], none⟩] }, b.uploads.length)

variable [DecidableEq κ]

/-- The upload with this id, of this key, that is not finished. -/
def resume (key : κ) (id : Nat) (b : Bucket κ) : Option (Upload κ) :=
  b.uploads[id]?.filter fun upload => upload.key = key ∧ upload.finish = none

/-- A part replaces the one of its number. -/
def uploadPart (key : κ) (id : Nat) (part : Part) (b : Bucket κ) : Option (Bucket κ × Part) := do
  let upload ← b.resume key id
  let parts := upload.parts.filter (·.number ≠ part.number) ++ [part]
  some ({ b with uploads := b.uploads.set id { upload with parts } }, part)

/-- The bytes of the parts with these numbers and etags. -/
def assemble (parts : List Part) (listed : List (Nat × String)) : Option (List UInt8) :=
  (listed.mapM fun (number, etag) =>
    (parts.find? fun part : Part => part.number = number && part.etag = etag).map Part.bytes).map List.flatten

def complete (owner : Nat) (key : κ) (id : Nat) (listed : List (Nat × String)) (b : Bucket κ) :
    Option (Bucket κ × List UInt8) := do
  let upload ← b.resume key id
  let bytes ← assemble upload.parts listed
  some (⟨Function.update b.objects key (some bytes), b.uploads.set id { upload with finish := some (.completed owner) }⟩,
    bytes)

def abort (key : κ) (id : Nat) (b : Bucket κ) : Option (Bucket κ × Unit) := do
  let upload ← b.resume key id
  some ({ b with uploads := b.uploads.set id { upload with finish := some .aborted } }, ())

def delete (key : κ) (b : Bucket κ) : Bucket κ := { b with objects := Function.update b.objects key none }

/-! ## What operations leave alone -/

omit [DecidableEq κ] in
theorem lt_of_keyOf {b : Bucket κ} {id : Nat} {key : κ} (h : b.keyOf id = some key) : id < b.uploads.length := by
  by_contra hle
  rw [keyOf, List.getElem?_eq_none (Nat.le_of_not_lt hle)] at h
  cases h

omit [DecidableEq κ] in
theorem lt_of_finishOf {b : Bucket κ} {id : Nat} {f : Finish} (h : b.finishOf id = some f) : id < b.uploads.length := by
  by_contra hle
  rw [finishOf, List.getElem?_eq_none (Nat.le_of_not_lt hle)] at h
  cases h

theorem resume_some {b : Bucket κ} {key : κ} {id : Nat} {upload : Upload κ} (h : b.resume key id = some upload) :
    b.uploads[id]? = some upload ∧ upload.key = key ∧ upload.finish = none := by
  unfold resume at h
  rw [Option.filter_eq_some_iff] at h
  exact ⟨h.1, by simpa using h.2⟩

theorem resume_finishOf {b : Bucket κ} {key : κ} {id : Nat} {upload : Upload κ} (h : b.resume key id = some upload) :
    b.finishOf id = none ∧ b.keyOf id = some key := by
  obtain ⟨hget, hkey, hopen⟩ := resume_some h
  simp [finishOf, keyOf, hget, hkey, hopen]

section
variable {b : Bucket κ} {upload upload' : Upload κ} {id : Nat} {objects : κ → Option (List UInt8)}
  (hget : b.uploads[id]? = some upload)
include hget

omit [DecidableEq κ] in
theorem keyOf_set (hkey : upload'.key = upload.key) (i : Nat) :
    (⟨objects, b.uploads.set id upload'⟩ : Bucket κ).keyOf i = b.keyOf i := by
  have hlt := (List.getElem?_eq_some_iff.mp hget).1
  simp only [keyOf, List.getElem?_set]
  split
  · next heq =>
    subst heq
    rw [hget, Option.map_some, Option.map_some, hkey]
  · rfl

omit [DecidableEq κ] in
theorem finishOf_set_self : (⟨objects, b.uploads.set id upload'⟩ : Bucket κ).finishOf id = upload'.finish := by
  have hlt := (List.getElem?_eq_some_iff.mp hget).1
  simp [finishOf, hlt]

omit hget [DecidableEq κ] in
theorem finishOf_set_of_ne {i : Nat} (hne : id ≠ i) :
    (⟨objects, b.uploads.set id upload'⟩ : Bucket κ).finishOf i = b.finishOf i := by
  simp [finishOf, hne]

end

/-- Uploads keep their keys, and finished ones stay as they are. -/
structure Extends (b b' : Bucket κ) : Prop where
  keys : ∀ id key, b.keyOf id = some key → b'.keyOf id = some key
  finished : ∀ id f, b.finishOf id = some f → b'.finishOf id = some f

omit [DecidableEq κ] in
theorem Extends.refl (b : Bucket κ) : Extends b b := ⟨fun _ _ h => h, fun _ _ h => h⟩

omit [DecidableEq κ] in
theorem Extends.trans {b b' b'' : Bucket κ} (h : Extends b b') (h' : Extends b' b'') : Extends b b'' :=
  ⟨fun id key hk => h'.keys id key (h.keys id key hk), fun id f hf => h'.finished id f (h.finished id f hf)⟩

/-- A change of an upload that is not finished. -/
theorem extends_set {b : Bucket κ} {key : κ} {id : Nat} {upload upload' : Upload κ} (h : b.resume key id = some upload)
    (hkey : upload'.key = upload.key) (objects : κ → Option (List UInt8)) :
    Extends b ⟨objects, b.uploads.set id upload'⟩ := by
  obtain ⟨hget, -, -⟩ := resume_some h
  refine ⟨fun i k hk => by rwa [keyOf_set hget hkey], fun i f hf => ?_⟩
  have hne : id ≠ i := by
    rintro rfl
    rw [(resume_finishOf h).1] at hf
    cases hf
  rwa [finishOf_set_of_ne hne]

omit [DecidableEq κ] in
theorem create_some {key : κ} {b b' : Bucket κ} {id : Nat} (h : b.create key = some (b', id)) :
    Extends b b' ∧ b'.keyOf id = some key ∧ b'.objects = b.objects ∧ ∀ i, b'.finishOf i = b.finishOf i := by
  cases h
  refine ⟨⟨fun i k hk => ?_, fun i f hf => ?_⟩, by simp [keyOf], rfl, fun i => ?_⟩
  · have hlt := lt_of_keyOf hk
    simpa [keyOf, List.getElem?_append_left hlt] using hk
  · have hlt := lt_of_finishOf hf
    simpa [finishOf, List.getElem?_append_left hlt] using hf
  · rcases Nat.lt_trichotomy i b.uploads.length with hlt | rfl | hgt
    · simp [finishOf, List.getElem?_append_left hlt]
    · simp [finishOf]
    · rw [finishOf, finishOf, List.getElem?_eq_none (by simp; omega), List.getElem?_eq_none (by omega)]

theorem uploadPart_some {key : κ} {id : Nat} {part part' : Part} {b b' : Bucket κ}
    (h : b.uploadPart key id part = some (b', part')) :
    Extends b b' ∧ b'.objects = b.objects ∧ ∀ i, b'.finishOf i = b.finishOf i := by
  simp only [uploadPart, Option.bind_eq_bind, Option.bind_eq_some_iff, Option.some.injEq, Prod.mk.injEq] at h
  obtain ⟨upload, hresume, rfl, -⟩ := h
  refine ⟨extends_set hresume (by rfl) _, rfl, fun i => ?_⟩
  obtain ⟨hget, -, hopen⟩ := resume_some hresume
  by_cases hi : id = i
  · subst hi
    rw [finishOf_set_self hget, (resume_finishOf hresume).1, hopen]
  · exact finishOf_set_of_ne hi

theorem abort_some {key : κ} {id : Nat} {b b' : Bucket κ} {u : Unit} (h : b.abort key id = some (b', u)) :
    Extends b b' ∧ b'.objects = b.objects ∧ b'.finishOf id = some .aborted ∧ ∀ i, id ≠ i → b'.finishOf i = b.finishOf i := by
  simp only [abort, Option.bind_eq_bind, Option.bind_eq_some_iff, Option.some.injEq, Prod.mk.injEq] at h
  obtain ⟨upload, hresume, rfl, -⟩ := h
  obtain ⟨hget, -, -⟩ := resume_some hresume
  exact ⟨extends_set hresume (by rfl) _, rfl, finishOf_set_self hget, fun i hi => finishOf_set_of_ne hi⟩

theorem complete_some {owner : Nat} {key : κ} {id : Nat} {listed : List (Nat × String)} {b b' : Bucket κ}
    {bytes : List UInt8} (h : b.complete owner key id listed = some (b', bytes)) :
    Extends b b' ∧ b'.objects = Function.update b.objects key (some bytes) ∧ b.finishOf id = none ∧
      b.keyOf id = some key ∧ b'.finishOf id = some (.completed owner) ∧ ∀ i, id ≠ i → b'.finishOf i = b.finishOf i := by
  simp only [complete, Option.bind_eq_bind, Option.bind_eq_some_iff, Option.some.injEq, Prod.mk.injEq] at h
  obtain ⟨upload, hresume, bytes', -, rfl, rfl⟩ := h
  obtain ⟨hget, -, -⟩ := resume_some hresume
  exact ⟨extends_set hresume (by rfl) _, rfl, (resume_finishOf hresume).1, (resume_finishOf hresume).2,
    finishOf_set_self hget, fun i hi => finishOf_set_of_ne hi⟩

end Bucket

end Multipart
