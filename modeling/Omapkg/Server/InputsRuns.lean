import Mathlib.Data.Set.Subsingleton
import Omapkg.Lib.JsonParse
import Omapkg.Server.InputsInvariant
/-!
# Requests for retained inputs

Every request keeps what retained inputs keep, one step after the other, so any
number of them do in any order. The document that a byte order mark spoils is
at the end.
-/

namespace Omapkg.Server.Inputs

open Utf Prog Multipart Json
open Dependency (Actor Role humanMaintainer)
open Uploads (Outcome uploadPartSize)

variable (rt : InputRuntime) (S : Set Bytes)

section

/-! ## Programs -/

/-- What holds of a program that last saw a state and keeps the inputs as they
are, as long as its steps are in `C`. -/
abbrev Retains {α : Type} (C : InputState → InputState → Prop) (Q : α → InputState → Prop)
    (p : Prog InputState InputThrow α) (s : InputState) : Prop := Keeps (InputsOk rt S) C Grows Grows Q p s

variable {rt S} {s s' : InputState} {C : InputState → InputState → Prop} {α : Type}

/-- What the inputs keep, a program still has at its end. -/
theorem retains_frame {P : InputState → Prop} (hP : ∀ s s', P s → Grows s s' → P s') {Q : α → InputState → Prop}
    {p : Prog InputState InputThrow α} (h : Retains rt S C Q p s) (hp : P s) :
    Retains rt S C (fun a s => Q a s ∧ P s) p s := h.frame hP hP hp

/-- A program that starts with a statement. -/
theorem retains_statement {statement : Sql.Statement InputState} {Q : α → InputState → Prop}
    {f : List Nat → Prog InputState InputThrow α}
    (h : ∀ s' s'' n n', InputsOk rt S s' → Grows s s' → statement s' n = .ok (s'', n') → InputsOk rt S s'' ∧ Grows s' s'')
    (hf : ∀ ns s', InputsOk rt S s' → Grows s s' → Retains rt S C Q (f ns) s') :
    Retains rt S C Q (Sql.run [statement] .database >>= f) s := by
  apply Sql.keeps_run_bind
  intro s' s'' ns hi hs hrun _
  obtain ⟨s₁, n₁, ns₁, hfirst, hrest, -⟩ := Sql.runAll_cons_ok.mp hrun
  obtain ⟨rfl, -⟩ := Sql.runAll_nil_ok.mp hrest
  obtain ⟨hi', hg⟩ := h _ _ _ _ hi hs hfirst
  exact ⟨hi', hg, hf ns _ hi' (hs.trans hg)⟩

theorem checkHuman_retains (actor : Option Actor) : Retains rt S C (fun _ _ => True) (checkHuman actor) s :=
  keeps_ofExcept fun _ _ _ _ _ => trivial

theorem inputAuthority_retains (actor : Option Actor) (hi : InputsOk rt S s) :
    Retains rt S C (fun _ _ => True) (inputAuthority actor) s := by
  apply keeps_bind hi (checkHuman_retains actor)
  intro human s _ _
  apply keeps_read_bind
  intro s' _ _
  exact checkHuman_retains _

theorem inputObject_retains (digest : String) : Retains rt S C (fun _ _ => True) (inputObject digest) s := by
  unfold inputObject
  split
  · trivial
  · apply keeps_read_bind
    intro s' _ _
    split
    · trivial
    · exact fun _ _ _ => trivial

/-- A document is recorded by the text of its own bytes. -/
theorem indexInputDocument_retains (hmark : ∀ bytes ∈ S, ¬Marked rt bytes) (digest : String) {bytes : Bytes}
    (hmem : bytes ∈ S) : Retains rt S C (fun _ _ => True) (indexInputDocument rt digest bytes) s := by
  unfold indexInputDocument
  split
  · exact fun _ _ _ => trivial
  · next text htext =>
    obtain ⟨howntext, hcanonical⟩ := documentText_own htext (hmark bytes hmem)
    split
    · trivial
    · next hdigest =>
      apply retains_statement
      · intro s' s'' n n' hi _ hs
        apply hi.insertDocument _ hs
        refine ⟨?_, ?_, ?_⟩
        · rw [String.toList_ofList, howntext]
          exact hmem
        · rw [String.toList_ofList, howntext]
          exact not_not.mp hdigest
        · rw [String.toList_ofList]
          exact hcanonical
      · exact fun _ _ _ _ _ _ _ => trivial

theorem retainInputBytes_retains (hhash : Set.InjOn (fun bytes => (rt.sha256 bytes).hex) S)
    (hmark : ∀ bytes ∈ S, ¬Marked rt bytes) (actor : Actor) {bytes : Bytes}
    (hstores : ∀ s, InputsOk rt S s → C s (putObject (retainedKey (rt.sha256 bytes).hex) bytes s) → bytes ∈ S) :
    Retains rt S C (fun _ _ => True) (retainInputBytes rt actor bytes) s := by
  unfold retainInputBytes
  split
  · trivial
  · intro s₁ hi hs hc
    have hmem : bytes ∈ S := hstores s₁ hi hc
    have hstored : (putObject (retainedKey (rt.sha256 bytes).hex) bytes s₁).bucket.objects
        (retainedKey (rt.sha256 bytes).hex) = some bytes := Function.update_self ..
    obtain ⟨hi₁, hg₁⟩ := hi.put hhash hmem
    refine ⟨hi₁, hg₁, ?_⟩
    apply keeps_read_bind
    intro s₂ hi₂ hg₂
    apply retains_statement
    · intro s' s'' n n' hi' hg' hinsert
      apply hi'.insertObject _ hinsert
      exact ⟨bytes, hg'.objects _ _ (hg₂.objects _ _ hstored), rfl, rfl⟩
    · intro ns s₃ hi₃ _
      apply keeps_bind hi₃ (inputObject_retains _)
      intro row s₄ hi₄ _
      split
      · trivial
      · exact keeps_bind hi₄ (indexInputDocument_retains hmark _ hmem) fun _ _ _ _ _ _ _ => trivial

theorem upload_retains (actor : Actor) (digest uploadId : String) :
    Retains rt S C (fun row s => Declared row s ∧ row.sha256 = digest) (upload actor digest uploadId) s := by
  apply keeps_read_bind
  intro s₁ hi₁ _
  apply keeps_read_bind
  intro s₂ hi₂ hg₂
  split
  · trivial
  · next row hfound =>
    have hrow : row ∈ s₁.uploads := List.mem_of_find?_eq_some hfound
    have hcolumns := List.find?_some hfound
    simp only [Bool.and_eq_true, decide_eq_true_eq] at hcolumns
    split
    · trivial
    · intro s₃ _ hg₃
      have hdeclared : Declared row s₁ := ⟨row, hrow, rfl⟩
      exact ⟨(hdeclared.grows hg₂).grows hg₃, hcolumns.1.2⟩

/-! ### Starting -/

/-- A program that starts with a call to the bucket. -/
theorem retains_call {β : Type} {call : Bucket String → Option (Bucket String × β)} {Q : α → InputState → Prop}
    {f : β → Prog InputState InputThrow α}
    (h : ∀ s' b a, InputsOk rt S s' → Grows s s' → call s'.bucket = some (b, a) → C s' { s' with bucket := b } →
      InputsOk rt S { s' with bucket := b } ∧ Grows s' { s' with bucket := b } ∧
        Retains rt S C Q (f a) { s' with bucket := b }) :
    Retains rt S C Q (callBucket call >>= f) s := by
  apply keeps_transact_bind
  intro s' hi hs hc
  cases hcall : call s'.bucket with
  | none =>
    exact ⟨hi, refl_of Grows s', fun _ hok => nomatch hok⟩
  | some answer =>
    simp only [hcall] at hc ⊢
    obtain ⟨hi', hg, hnext⟩ := h s' answer.1 answer.2 hi hs hcall hc
    refine ⟨hi', hg, fun b hok => ?_⟩
    cases hok
    exact hnext

/-- Whether or not its batch comes back, a program goes on. -/
theorem retains_commit {statements : List (Sql.Statement InputState)} {Q : α → InputState → Prop}
    {f : Except Sql.Raised (List Nat) → Prog InputState InputThrow α}
    (h : ∀ s' s'' ns, InputsOk rt S s' → Grows s s' → Sql.runAll statements s' 0 = .ok (s'', ns) →
      InputsOk rt S s'' ∧ Grows s' s'')
    (hf : ∀ x s', InputsOk rt S s' → Retains rt S C Q (f x) s') : Retains rt S C Q (commit statements >>= f) s := by
  apply keeps_transact_bind
  intro s' hi hs _
  have hbatch : InputsOk rt S (Sql.batch statements s').2 ∧ Grows s' (Sql.batch statements s').2 := by
    unfold Sql.batch
    split
    · next s'' ns hrun => exact h s' s'' ns hi hs hrun
    · exact ⟨hi, refl_of Grows s'⟩
  cases s'.database with
  | works => exact ⟨hbatch.1, hbatch.2, fun x _ => hf x _ hbatch.1⟩
  | fails => exact ⟨hi, refl_of Grows s', fun x _ => hf x _ hi⟩
  | loses => exact ⟨hbatch.1, hbatch.2, fun x _ => hf x _ hbatch.1⟩

/-- An update to another status than `complete`. -/
theorem setStatus_ok {p : Upload → Bool} {status : UploadStatus} {n n' : Nat} (hstatus : status ≠ .complete)
    (h : InputsOk rt S s) (hs : updateUploads p status s n = .ok (s', n')) : InputsOk rt S s' ∧ Grows s s' := by
  apply h.updateUploads _ hs
  intro _ _ _ hcomplete
  exact absurd hcomplete hstatus

theorem insertedUpload_retains (human : Actor) (ref : InputObject) (uploadId : String) (r2UploadId : Nat)
    (inserted : Except Sql.Raised (List Nat)) :
    Retains rt S C Declared (insertedUpload human ref uploadId r2UploadId inserted) s := by
  cases inserted with
  | ok ns => exact keeps_mono (fun _ _ h => h.1) (upload_retains human ref.sha256 uploadId)
  | error cause =>
    apply retains_call
    intro s' b u hi _ habort _
    obtain ⟨hextends, hobjects, -, -⟩ := Bucket.abort_some habort
    obtain ⟨hi', hg⟩ := hi.call hextends hobjects
    exact ⟨hi', hg, trivial⟩

theorem createUpload_retains (human : Actor) (ref : InputObject) (uploadId : String) :
    Retains rt S C Declared (createUpload human ref uploadId) s := by
  apply retains_call
  intro s₁ b r2UploadId hi₁ _ hcreate _
  obtain ⟨hextends, hkey, hobjects, -⟩ := Bucket.create_some hcreate
  obtain ⟨hi₂, hg₂⟩ := hi₁.call hextends hobjects
  refine ⟨hi₂, hg₂, ?_⟩
  apply keeps_read_bind
  intro s₃ _ hg₃
  apply retains_commit
  · intro s' s'' ns hi' hg' hrun
    obtain ⟨s₁, n₁, ns₁, hfirst, hrest, -⟩ := Sql.runAll_cons_ok.mp hrun
    obtain ⟨rfl, -⟩ := Sql.runAll_nil_ok.mp hrest
    have hkey' : s'.bucket.keyOf r2UploadId = some (uploadKey uploadId ref.sha256) :=
      hg'.bucket.keys _ _ (hg₃.bucket.keys _ _ hkey)
    exact hi'.insertUpload hkey' (uploadKey_ne_retainedKey _ _) rfl hfirst
  · exact fun inserted _ _ => insertedUpload_retains human ref uploadId r2UploadId inserted

theorem openUpload_retains (human : Actor) (ref : InputObject) (uploadId : String) :
    Retains rt S C Declared (openUpload human ref uploadId) s := by
  apply keeps_read_bind
  intro s₁ _ _
  split
  · next row hfound =>
    have hdeclared : Declared row s₁ := ⟨row, List.mem_of_find?_eq_some hfound, rfl⟩
    exact fun _ _ hg => hdeclared.grows hg
  · exact createUpload_retains human ref uploadId

theorem startInputUpload_retains (actor : Option Actor) (ref : InputObject) (uploadId : String) (hi : InputsOk rt S s) :
    Retains rt S C (fun _ _ => True) (startInputUpload actor ref uploadId) s := by
  apply keeps_bind hi (inputAuthority_retains actor hi)
  intro human s _ _
  split
  · trivial
  · apply keeps_read_bind
    intro s₁ _ _
    split
    · split
      · trivial
      · exact fun _ _ _ => trivial
    · apply keeps_read_bind
      intro s₂ _ _
      apply retains_statement
      · exact fun _ _ _ _ hi' _ hs => setStatus_ok (by decide) hi' hs
      · intro ns s₃ hi₃ _
        apply keeps_bind hi₃ (openUpload_retains human ref uploadId)
        intro row s₄ _ _
        split
        · trivial
        · apply keeps_read_bind
          exact fun _ _ _ _ _ _ => trivial

/-! ### Parts -/

theorem writeInputPart_retains (actor : Option Actor) (digest uploadId : String) (partNumber : Nat) (bytes : Bytes)
    (hi : InputsOk rt S s) : Retains rt S C (fun _ _ => True) (writeInputPart rt actor digest uploadId partNumber bytes) s := by
  apply keeps_bind hi (inputAuthority_retains actor hi)
  intro human s hi _
  apply keeps_bind hi (upload_retains human digest uploadId)
  intro row s _ _
  split
  · trivial
  · split
    · trivial
    · split
      · trivial
      · apply keeps_read_bind
        intro s₁ _ _
        split
        · split
          · trivial
          · exact fun _ _ _ => trivial
        · apply retains_call
          intro s₂ b part hi₂ _ hpart _
          obtain ⟨hextends, hobjects, -⟩ := Bucket.uploadPart_some hpart
          obtain ⟨hi₃, hg₃⟩ := hi₂.call hextends hobjects
          refine ⟨hi₃, hg₃, ?_⟩
          split
          · trivial
          · apply keeps_read_bind
            intro s₄ _ _
            apply retains_statement
            · exact fun _ _ _ _ hi' _ hs => hi'.insertPart hs
            · intro ns s₅ _ _
              apply keeps_read_bind
              intro s₆ _ _
              split
              · trivial
              · split
                · trivial
                · exact fun _ _ _ => trivial

/-! ### Completing -/

theorem assemble_retains (me : Nat) {row : Upload} (saved : List Part) (hrow : Declared row s) :
    Retains rt S (StoresIn S) (fun _ _ => True) (assemble me row saved) s := by
  apply keeps_read_bind
  intro s₁ _ hg₁
  split
  · exact fun _ _ _ => trivial
  · apply retains_call
    intro s₂ b bytes hi₂ hg₂ hcomplete hstores
    obtain ⟨hi₃, hg₃⟩ := hi₂.assemble ((hrow.grows hg₁).grows hg₂) hcomplete hstores
    exact ⟨hi₃, hg₃, fun _ _ _ => trivial⟩

/-- What was hashed stays stored. -/
theorem hashObject_retains (key : String) :
    Retains rt S C (fun actual s => Stored rt actual key s) (hashObject rt key) s := by
  apply keeps_read_bind
  intro s₁ _ _
  split
  · trivial
  · next bytes hobject =>
    split
    · trivial
    · have hstored : Stored rt ⟨(rt.sha256 bytes).hex, bytes.length⟩ key s₁ := ⟨bytes, hobject, rfl, rfl⟩
      exact fun _ _ hg => hstored.grows hg

/-- An upload that is registered was hashed. -/
theorem registerInput_ok {row : Upload} {actorId : String} {now : Int} {n n' : Nat} (h : InputsOk rt S s)
    (hrow : Declared row s) (hstored : Stored rt row.toInputObject row.objectKey s)
    (hs : registerInput row actorId now s n = .ok (s', n')) : InputsOk rt S s' ∧ Grows s s' := by
  unfold registerInput at hs
  split at hs
  · cases hs
    exact ⟨h, refl_of Grows s⟩
  · next u hfound =>
    have hid := List.find?_some hfound
    simp only [Bool.and_eq_true, decide_eq_true_eq] at hid
    have hsame := h.declared hrow (List.mem_of_find?_eq_some hfound) hid.1.1
    split at hs
    · apply h.insertObject _ hs
      have hobject : u.toInputObject = row.toInputObject := congrArg UploadDeclaration.toInputObject hsame
      have hkey : u.objectKey = row.objectKey := congrArg UploadDeclaration.objectKey hsame
      rw [hobject, hkey]
      exact hstored
    · cases hs
      exact ⟨h, refl_of Grows s⟩

theorem completeUpload_ok {row : Upload} {n n' : Nat} (h : InputsOk rt S s) (hrow : Declared row s)
    (hs : completeUpload row row.sha256 s n = .ok (s', n')) : InputsOk rt S s' ∧ Grows s s' := by
  apply h.updateUploads _ hs
  intro u hu hp _
  simp only [Bool.and_eq_true, decide_eq_true_eq, List.any_eq_true] at hp
  obtain ⟨⟨hid, -⟩, r, hr, hdigest, hsize⟩ := hp
  have hobject : u.toInputObject = row.toInputObject := congrArg UploadDeclaration.toInputObject (h.declared hrow hu hid)
  refine ⟨r, hr, ?_⟩
  rw [hobject, InputObject.mk.injEq]
  exact ⟨hdigest, hsize⟩

theorem recordInput_retains (hmark : ∀ bytes ∈ S, ¬Marked rt bytes) (actor : Option Actor) (human : Actor) {row : Upload}
    (hi : InputsOk rt S s) (hrow : Declared row s) (hstored : Stored rt row.toInputObject row.objectKey s) :
    Retains rt S C (fun _ _ => True) (recordInput rt actor human row row.sha256) s := by
  apply keeps_bind hi (retains_frame (fun _ _ h hg => h.grows hg) (retains_frame (fun _ _ h hg => h.grows hg)
    (inputAuthority_retains actor hi) hrow) hstored)
  intro _ s₁ _ ⟨⟨_, hrow₁⟩, hstored₁⟩
  apply keeps_read_bind
  intro s₂ _ hg₂
  apply Sql.keeps_run_bind
  intro s₃ s₄ ns hi₃ hg₃ hrun _
  have hg := hg₂.trans hg₃
  obtain ⟨s', n, ns', hregister, hrest, -⟩ := Sql.runAll_cons_ok.mp hrun
  obtain ⟨s'', n', ns'', hcomplete, hnil, -⟩ := Sql.runAll_cons_ok.mp hrest
  obtain ⟨rfl, -⟩ := Sql.runAll_nil_ok.mp hnil
  obtain ⟨hi', hg'⟩ := registerInput_ok hi₃ (hrow₁.grows hg) (hstored₁.grows hg) hregister
  obtain ⟨hi₄, hg₄⟩ := completeUpload_ok hi' ((hrow₁.grows hg).grows hg') hcomplete
  refine ⟨hi₄, hg'.trans hg₄, ?_⟩
  apply keeps_bind hi₄ (inputObject_retains _)
  intro registered s₅ _ _
  split
  · trivial
  · split
    · apply keeps_read_bind
      intro s₆ hi₆ _
      split
      · trivial
      · next bytes hobject =>
        have hmem : bytes ∈ S := (hi₆.sourced _ _ hobject).1
        split
        · trivial
        · exact keeps_bind hi₆ (indexInputDocument_retains hmark _ hmem) fun _ _ _ _ _ _ _ => trivial
    · exact fun _ _ _ => trivial

theorem completeInputUpload_retains (hmark : ∀ bytes ∈ S, ¬Marked rt bytes) (me : Nat) (actor : Option Actor)
    (digest uploadId : String) (hi : InputsOk rt S s) :
    Retains rt S (StoresIn S) (fun _ _ => True) (completeInputUpload rt me actor digest uploadId) s := by
  apply keeps_bind hi (inputAuthority_retains actor hi)
  intro human s hi _
  apply keeps_bind hi (upload_retains human digest uploadId)
  intro row s hi ⟨hrow, hdigest⟩
  subst hdigest
  split
  · exact keeps_bind hi (inputObject_retains _) fun _ _ _ _ _ _ _ => trivial
  · apply keeps_read_bind
    intro s₁ _ hg₁
    split
    · trivial
    · apply retains_statement
      · exact fun _ _ _ _ hi' _ hs => setStatus_ok (by decide) hi' hs
      · intro ns s₂ hi₂ hg₂
        have hrow₂ := (hrow.grows hg₁).grows hg₂
        apply keeps_bind hi₂ (retains_frame (fun _ _ h hg => h.grows hg) (assemble_retains me _ hrow₂) hrow₂)
        intro _ s₃ hi₃ ⟨_, hrow₃⟩
        apply keeps_bind hi₃ (retains_frame (fun _ _ h hg => h.grows hg) (hashObject_retains row.objectKey) hrow₃)
        intro actual s₄ hi₄ ⟨hstored, hrow₄⟩
        split
        · apply retains_statement
          · exact fun _ _ _ _ hi' _ hs => setStatus_ok (by decide) hi' hs
          · exact fun _ _ _ _ => trivial
        · next hsame =>
          rw [not_not.mp hsame] at hstored
          exact recordInput_retains hmark actor human hi₄ hrow₄ hstored

end

/-! ## Runs -/

inductive InputRequest : Nat → Prog InputState InputThrow Unit → Prop where
  | start (n : Nat) (actor : Option Actor) (ref : InputObject) (uploadId : String) :
      InputRequest n (startInputUpload actor ref uploadId >>= fun _ => pure ())
  | part (n : Nat) (actor : Option Actor) (digest uploadId : String) (partNumber : Nat) (bytes : Bytes) :
      InputRequest n (writeInputPart rt actor digest uploadId partNumber bytes >>= fun _ => pure ())
  | complete (n : Nat) (actor : Option Actor) (digest uploadId : String) :
      InputRequest n (completeInputUpload rt n actor digest uploadId >>= fun _ => pure ())
  | retain (n : Nat) (actor : Actor) (bytes : Bytes) :
      InputRequest n (retainInputBytes rt actor bytes >>= fun _ => pure ())

/-- What changes besides: the clock, the teams and how the next insert of an upload ends. -/
def Outside (s s' : InputState) : Prop :=
  s'.inputObjects = s.inputObjects ∧ s'.inputDocuments = s.inputDocuments ∧ s'.uploads = s.uploads ∧
    s'.parts = s.parts ∧ s'.bucket = s.bucket

theorem InputsOk.outside {rt : InputRuntime} {S : Set Bytes} {s s' : InputState} (h : InputsOk rt S s)
    (hs : Outside s s') : InputsOk rt S s' ∧ Grows s s' := by
  obtain ⟨hobjects, hdocuments, huploads, -, hbucket⟩ := hs
  apply h.tables huploads hbucket
  · intro r hr
    rwa [hobjects]
  · intro r hr
    rw [hobjects] at hr
    exact .inl hr
  · intro d hd
    rw [hdocuments] at hd
    exact .inl hd

variable {rt S}

theorem agree (hhash : Set.InjOn (fun bytes => (rt.sha256 bytes).hex) S) (hmark : ∀ bytes ∈ S, ¬Marked rt bytes) :
    Pool.Agree (InputRequest rt) Outside (InputsOk rt S) (StoresIn S) (fun _ => Grows) (fun _ => Grows)
      (fun _ _ => True) where
  refl _ := inferInstance
  trans _ := inferInstance
  start := by
    intro n p s hp hi
    cases hp with
    | start => exact keeps_bind hi (startInputUpload_retains _ _ _ hi) fun _ _ _ _ _ _ _ => trivial
    | part => exact keeps_bind hi (writeInputPart_retains _ _ _ _ _ hi) fun _ _ _ _ _ _ _ => trivial
    | complete => exact keeps_bind hi (completeInputUpload_retains hmark _ _ _ _ hi) fun _ _ _ _ _ _ _ => trivial
    | retain actor bytes =>
      have hretains := retainInputBytes_retains (C := StoresIn S) (s := s) hhash hmark actor
        fun _ _ hstores => hstores _ _ (Function.update_self (retainedKey (rt.sha256 bytes).hex) ..)
      exact keeps_bind hi hretains fun _ _ _ _ _ _ _ => trivial
  others _ _ _ hg := hg
  outside hs hi := ⟨(hi.outside hs).1, fun _ => (hi.outside hs).2⟩

/-- Nothing is stored or registered yet. -/
def Fresh (s : InputState) : Prop :=
  s.inputObjects = [] ∧ s.inputDocuments = [] ∧ s.uploads = [] ∧ s.parts = [] ∧ s.bucket.uploads = [] ∧
    ∀ key, s.bucket.objects key = none

theorem fresh_ok {s : InputState} (h : Fresh s) : InputsOk rt S s := by
  obtain ⟨hobjects, hdocuments, huploads, -, -, hnone⟩ := h
  refine ⟨by simp [huploads], by simp [huploads], by simp [huploads], by simp [huploads], ?_, by simp [hobjects],
    by simp [hdocuments], by simp [huploads]⟩
  intro key bytes ho
  rw [hnone] at ho
  cases ho

variable (rt) in
/-- What frozen builds trust: a registered input's object is stored and is what
its row says, a document is the text of that object in canonical form, and a
complete upload's input is registered. -/
structure Trusted (s : InputState) : Prop where
  registered : ∀ r ∈ s.inputObjects, Stored rt r.toInputObject r.objectKey s
  documents : ∀ r ∈ s.inputObjects, ∀ d ∈ s.inputDocuments, d.sha256 = r.sha256 →
    s.bucket.objects r.objectKey = some (encode d.canonicalJson.toList) ∧ isCanonical rt d.canonicalJson.toList = true
  complete : ∀ u ∈ s.uploads, u.status = .complete → ∃ r ∈ s.inputObjects, r.toInputObject = u.toInputObject

theorem InputsOk.trusted (hhash : Set.InjOn (fun bytes => (rt.sha256 bytes).hex) S) {s : InputState}
    (h : InputsOk rt S s) : Trusted rt s := by
  refine ⟨h.registered, fun r hr d hd hsame => ?_, h.complete⟩
  obtain ⟨bytes, hobject, hdigest, -⟩ := h.registered r hr
  have hindexed := h.indexed d hd
  -- the object and the document have one digest
  have heq : bytes = encode d.canonicalJson.toList := by
    apply hhash (h.sourced _ _ hobject).1 hindexed.mem
    exact hdigest.trans (hsame.symm.trans hindexed.digest.symm)
  rw [← heq]
  exact ⟨hobject, hindexed.canonical⟩

/-- In whatever order requests make their steps, and wherever they stop: as
long as no two stored objects share a digest, and none is a document after a
byte order mark, what frozen builds trust holds. -/
theorem inputs_trusted (hhash : Set.InjOn (fun bytes => (rt.sha256 bytes).hex) S)
    (hmark : ∀ bytes ∈ S, ¬Marked rt bytes) (s : InputState) (hfresh : Fresh s) (pool : Pool InputState InputThrow Unit)
    (hsteps : Pool.StepsIn (InputRequest rt) Outside (StoresIn S) ⟨s, []⟩ pool) : Trusted rt pool.state := by
  have hgood := (Pool.good_start (fresh_ok hfresh)).stepsIn (agree hhash hmark) hsteps
  exact hgood.1.trusted hhash

/-! ## Two documents -/

/-- `{}`. -/
def plainDocument : Bytes := [0x7B, 0x7D]

/-- `{}` after a byte order mark. -/
def markedDocument : Bytes := [0xEF, 0xBB, 0xBF, 0x7B, 0x7D]

def plainDigest : Hash.Digest := ⟨[0x44, 0x13, 0x6F, 0xA3, 0x55, 0xB3, 0x67, 0x8A, 0x11, 0x46, 0xAD, 0x16, 0xF7, 0xE8, 0x64,
  0x9E, 0x94, 0xFB, 0x4F, 0xC2, 0x1F, 0xE7, 0x7E, 0x83, 0x10, 0xC0, 0x60, 0xF6, 0x1C, 0xAA, 0xFF, 0x8A], rfl⟩

def markedDigest : Hash.Digest := ⟨[0xAA, 0x25, 0xE9, 0x78, 0x04, 0x6D, 0x68, 0x0E, 0xF8, 0x74, 0x0D, 0x83, 0x7E, 0x6D, 0xE5,
  0xBC, 0x1E, 0x2A, 0x2D, 0xC6, 0x08, 0x9D, 0xBD, 0xA1, 0x01, 0x25, 0x44, 0xB5, 0x38, 0xD5, 0x3F, 0x65], rfl⟩

def readJson (text : List Char) : Option (Json JsString) :=
  (Json.parse 512 text).bind fun read => if skipWs read.2 = [] then some (read.1.map units) else none

def sampleRuntime : InputRuntime where
  sha256 bytes := if bytes = plainDocument then plainDigest else if bytes = markedDocument then markedDigest else .zero
  etag _ := "e"
  jsonParse := readJson

def sampleInputs : InputState where
  clock := 1000
  memberships := [("7", "system")]
  inputObjects := []
  inputDocuments := []
  uploads := []
  parts := []
  bucket := ⟨fun _ => none, []⟩
  database := .works

theorem sampleInputs_fresh : Fresh sampleInputs := ⟨rfl, rfl, rfl, rfl, rfl, fun _ => rfl⟩

def sampleActor : Actor := ⟨"github:7", .maintainer, ["system"]⟩

def retainPlain : Prog InputState InputThrow Unit :=
  retainInputBytes sampleRuntime sampleActor plainDocument >>= fun _ => pure ()

def plainStarted : Pool InputState InputThrow Unit :=
  (⟨sampleInputs, []⟩ : Pool InputState InputThrow Unit).starting retainPlain

/-- The server has retained a document. -/
def plainRetained : Pool InputState InputThrow Unit := plainStarted.turns (List.replicate 12 0)

theorem plain_unmarked : ∀ bytes ∈ ({plainDocument} : Set Bytes), ¬Marked sampleRuntime bytes := by
  rintro bytes rfl ⟨hhead, -⟩
  exact absurd hhead (by decide +kernel)

theorem retainPlain_keeps {s : InputState} (h : InputsOk sampleRuntime {plainDocument} s) :
    Keeps (InputsOk sampleRuntime {plainDocument}) (fun _ _ => True) Grows Grows (fun _ _ => True) retainPlain s := by
  apply keeps_bind h (retainInputBytes_retains (Set.subsingleton_singleton.injOn _) plain_unmarked sampleActor ?_)
  · exact fun _ _ _ _ _ _ _ => trivial
  · exact fun _ _ _ => rfl

/-- Only the document is stored, however far the run has come. -/
theorem plainRetained_stores (k : Nat) :
    StoresIn {plainDocument} sampleInputs (plainStarted.turns ((List.replicate 12 0).take k)).state := by
  have hagree : Pool.Agree (fun _ p => p = retainPlain) (fun _ _ => False) (InputsOk sampleRuntime {plainDocument})
      (fun _ _ => True) (fun _ => Grows) (fun _ => Grows) (fun _ _ => True) :=
    { refl := fun _ => inferInstance
      trans := fun _ => inferInstance
      start := fun hp hi => hp ▸ retainPlain_keeps hi
      others := fun _ _ _ hg => hg
      outside := fun hs => hs.elim }
  have hstart : Pool.Steps (fun _ p => p = retainPlain) (fun _ _ => False) ⟨sampleInputs, []⟩ plainStarted :=
    Pool.Steps.starting .refl rfl
  have hgood := (Pool.good_start (fresh_ok sampleInputs_fresh)).steps hagree (hstart.turns ((List.replicate 12 0).take k))
  exact fun key bytes ho => (hgood.1.sourced key bytes ho).1

theorem plainRetained_trusted :
    plainRetained.state.inputDocuments = [⟨plainDigest.hex, "{}"⟩] ∧ Trusted sampleRuntime plainRetained.state := by
  refine ⟨by decide +kernel, inputs_trusted (Set.subsingleton_singleton.injOn _) plain_unmarked sampleInputs
    sampleInputs_fresh plainRetained ?_⟩
  have hstart : Pool.StepsIn (InputRequest sampleRuntime) Outside (StoresIn {plainDocument}) ⟨sampleInputs, []⟩
      plainStarted :=
    .tail .refl ⟨Pool.starting_next _ (.retain 0 sampleActor plainDocument), fun _ _ ho => nomatch ho⟩
  exact hstart.trans (Pool.turns_stepsIn _ _ fun k _ => plainRetained_stores (k + 1))

/-- An upload of one part, and the request that completes it. -/
def markedUploaded : Pool InputState InputThrow Unit :=
  ((((⟨sampleInputs, []⟩ : Pool InputState InputThrow Unit).starting
    (startInputUpload (some sampleActor) ⟨markedDigest.hex, 5⟩ "u" >>= fun _ => pure ())).starting
    (writeInputPart sampleRuntime (some sampleActor) markedDigest.hex "u" 1 markedDocument >>= fun _ => pure ())).starting
    (completeInputUpload sampleRuntime 2 (some sampleActor) markedDigest.hex "u" >>= fun _ => pure ())).turns
      (List.replicate 12 0 ++ List.replicate 12 1 ++ List.replicate 20 2)

theorem markedUploaded_steps : Pool.Steps (InputRequest sampleRuntime) Outside ⟨sampleInputs, []⟩ markedUploaded := by
  have hfirst : Pool.Steps (InputRequest sampleRuntime) Outside ⟨sampleInputs, []⟩
      (⟨sampleInputs, []⟩ : Pool InputState InputThrow Unit) := .refl
  have hstarted := hfirst.starting (.start 0 (some sampleActor) ⟨markedDigest.hex, 5⟩ "u")
  have hwritten := hstarted.starting (.part 1 (some sampleActor) markedDigest.hex "u" 1 markedDocument)
  have hcompleted := hwritten.starting (.complete 2 (some sampleActor) markedDigest.hex "u")
  exact hcompleted.turns _

theorem markedUploaded_view :
    markedUploaded.state.inputDocuments = [⟨markedDigest.hex, "{}"⟩] ∧
      (markedUploaded.state.inputObjects.map fun r => (r.sha256, markedUploaded.state.bucket.objects r.objectKey)) =
        [(markedDigest.hex, some markedDocument)] := by
  decide +kernel

/-- The document of an object with a byte order mark has other bytes than the object. -/
theorem marked_document_differs :
    ¬∀ pool, Pool.Steps (InputRequest sampleRuntime) Outside ⟨sampleInputs, []⟩ pool → Trusted sampleRuntime pool.state := by
  intro h
  have htrusted := h markedUploaded markedUploaded_steps
  obtain ⟨hdocuments, hrows⟩ := markedUploaded_view
  generalize markedUploaded.state = s at htrusted hdocuments hrows
  obtain ⟨r, hr, hcolumns⟩ : ∃ r ∈ s.inputObjects,
      (r.sha256, s.bucket.objects r.objectKey) = (markedDigest.hex, some markedDocument) :=
    List.mem_map.mp (hrows ▸ List.mem_singleton.mpr rfl)
  obtain ⟨hdigest, hobject⟩ := Prod.mk.inj hcolumns
  have hdocument : ⟨markedDigest.hex, "{}"⟩ ∈ s.inputDocuments := hdocuments ▸ List.mem_singleton.mpr rfl
  have htext := (htrusted.documents r hr _ hdocument hdigest.symm).1
  rw [hobject] at htext
  exact absurd htext (by decide +kernel)

end Omapkg.Server.Inputs
