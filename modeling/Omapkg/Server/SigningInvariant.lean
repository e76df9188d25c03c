import Omapkg.Server.Signer
/-!
# What signing keeps

Whatever the order of claims, completions and signers, a signed intent stays as
it is and an expired one is not signed. The object at the signature key is the
one whose digest was recorded as long as no signer stores over an object.
-/

namespace Omapkg.Server

open Utf Prog

variable (sha256 : Bytes → Hash.Digest)

-- what names look like does not matter here, and is costly to unfold
attribute [local irreducible] configuredFingerprint publicKeyKey isSigningId isSafeKey

/-- The object at the key has the digest, if no signature was stored over another. -/
def StoredAt (key digest : String) (s : SigningState) : Prop :=
  s.replaced = 0 → ∃ o, s.objects key = some o ∧ (sha256 o.bytes).hex = digest

/-- The evidence of a signed row, recorded at a time before the intent's expiry. -/
def Evidence (row : SigningIntent) (s : SigningState) : Prop :=
  (∃ consumedAt, row.consumedAt = some consumedAt ∧ consumedAt < expiresBy row) ∧
    ∃ digest, row.signatureKey = some (row.objectKey ++ ".sig") ∧ row.signatureSha256 = some digest ∧
      StoredAt sha256 (row.objectKey ++ ".sig") digest s

structure SigningOk (s : SigningState) : Prop where
  ids : (s.intents.map (·.id)).Nodup
  evidence : ∀ row ∈ s.intents, row.status = .signed → Evidence sha256 row s
  manifests : ∀ row ∈ s.manifests, row.status ≠ .signed

/-- Signed rows stay, expired ones stay expired, and so does what is stored at a
signature key while no signature is stored over it. -/
structure Grows (s s' : SigningState) : Prop where
  signed : ∀ row ∈ s.intents, row.status = .signed → row ∈ s'.intents
  kept : ∀ row ∈ s.intents, ∃ row' ∈ s'.intents, row'.id = row.id ∧ row'.objectKey = row.objectKey ∧
    (row.status = .expired → row'.status = .expired)
  replaced : s.replaced ≤ s'.replaced
  objects : s'.replaced = 0 → ∀ key o, isSignatureKey key = true → s.objects key = some o → s'.objects key = some o

instance : Std.Refl Grows where
  refl _ := ⟨fun _ h _ => h, fun row h => ⟨row, h, rfl, rfl, id⟩, Nat.le_refl _, fun _ _ _ _ h => h⟩

theorem Grows.trans {s s' s'' : SigningState} (h : Grows s s') (h' : Grows s' s'') : Grows s s'' where
  signed row hrow hsigned := h'.signed row (h.signed row hrow hsigned) hsigned
  kept row hrow := by
    obtain ⟨row', hrow', hid, hkey, hexpired⟩ := h.kept row hrow
    obtain ⟨row'', hrow'', hid', hkey', hexpired'⟩ := h'.kept row' hrow'
    exact ⟨row'', hrow'', hid'.trans hid, hkey'.trans hkey, fun he => hexpired' (hexpired he)⟩
  replaced := Nat.le_trans h.replaced h'.replaced
  objects hzero key o hkey ho := by
    have hmid : s'.replaced = 0 := Nat.le_zero.mp (hzero ▸ h'.replaced)
    exact h'.objects hzero key o hkey (h.objects hmid key o hkey ho)

instance : IsTrans SigningState Grows := ⟨fun _ _ _ => Grows.trans⟩

theorem isSignatureKey_append (key : String) : isSignatureKey (key ++ ".sig") = true := by
  rw [isSignatureKey, List.isSuffixOf_iff_suffix, String.toList_append]
  exact List.suffix_append _ _

section
variable {sha256}

theorem StoredAt.stable {key digest : String} {s s' : SigningState} (hkey : isSignatureKey key = true)
    (h : StoredAt sha256 key digest s) (hs : Grows s s') : StoredAt sha256 key digest s' := by
  intro hzero
  obtain ⟨o, ho, hdigest⟩ := h (Nat.le_zero.mp (hzero ▸ hs.replaced))
  exact ⟨o, hs.objects hzero key o hkey ho, hdigest⟩

theorem Evidence.stable {row : SigningIntent} {s s' : SigningState} (h : Evidence sha256 row s) (hs : Grows s s') :
    Evidence sha256 row s' := by
  obtain ⟨htime, digest, hkey, hdigest, hstored⟩ := h
  exact ⟨htime, digest, hkey, hdigest, hstored.stable (isSignatureKey_append _) hs⟩

theorem SigningOk.eq_of_id {s : SigningState} (h : SigningOk sha256 s) {row row' : SigningIntent} (hrow : row ∈ s.intents)
    (hrow' : row' ∈ s.intents) (hid : row.id = row'.id) : row = row' := List.inj_on_of_nodup_map h.ids hrow hrow' hid

/-! ## Statements -/

/-- What an update of open intents keeps. -/
theorem SigningOk.update {p : SigningIntent → Bool} {f : SigningIntent → SigningIntent} {s : SigningState}
    (h : SigningOk sha256 s) (hid : ∀ row, (f row).id = row.id) (hkey : ∀ row, (f row).objectKey = row.objectKey)
    (hopen : ∀ row ∈ s.intents, p row = true → row.status ≠ .signed ∧ row.status ≠ .expired)
    (hevidence : ∀ row ∈ s.intents, p row = true → (f row).status = .signed → Evidence sha256 (f row) s) :
    SigningOk sha256 { s with intents := (Sql.update p f s.intents).1 } ∧
      Grows s { s with intents := (Sql.update p f s.intents).1 } := by
  have hgrows : Grows s { s with intents := (Sql.update p f s.intents).1 } := by
    refine ⟨fun row hrow hsigned => ?_, fun row hrow => ?_, Nat.le_refl _, fun _ _ _ _ ho => ho⟩
    · refine Sql.mem_update.mpr ⟨row, hrow, ?_⟩
      rw [if_neg fun hp => (hopen row hrow hp).1 hsigned]
    · refine ⟨_, Sql.mem_update.mpr ⟨row, hrow, rfl⟩, ?_⟩
      by_cases hp : p row = true
      · rw [if_pos hp]
        exact ⟨hid row, hkey row, fun he => absurd he (hopen row hrow hp).2⟩
      · rw [if_neg hp]
        exact ⟨rfl, rfl, fun he => he⟩
  refine ⟨⟨?_, fun row' hrow' hsigned => ?_, h.manifests⟩, hgrows⟩
  · show ((Sql.update p f s.intents).1.map (·.id)).Nodup
    rw [Sql.map_update fun row _ => hid row]
    exact h.ids
  · obtain ⟨row, hrow, rfl⟩ := Sql.mem_update.mp hrow'
    by_cases hp : p row = true
    · rw [if_pos hp] at hsigned ⊢
      exact (hevidence row hrow hp hsigned).stable hgrows
    · rw [if_neg hp] at hsigned ⊢
      exact (h.evidence row hrow hsigned).stable hgrows

theorem updateIntents_ok {p : SigningIntent → Bool} {f : SigningIntent → SigningIntent} {s s' : SigningState} {m n : Nat}
    (h : updateIntents p f s m = .ok (s', n)) :
    s' = { s with intents := (Sql.update p f s.intents).1 } ∧ n = (Sql.update p f s.intents).2 := by
  unfold updateIntents at h
  split at h
  · cases h
  · cases h
    exact ⟨rfl, rfl⟩

theorem SigningOk.updateManifests {p : ManifestIntent → Bool} {f : ManifestIntent → ManifestIntent} {s : SigningState}
    (h : SigningOk sha256 s) (hf : ∀ row, (f row).status ≠ .signed) :
    SigningOk sha256 { s with manifests := (Sql.update p f s.manifests).1 } ∧
      Grows s { s with manifests := (Sql.update p f s.manifests).1 } := by
  refine ⟨⟨h.ids, h.evidence, fun row' hrow' => ?_⟩, fun _ hrow _ => hrow, fun row hrow => ⟨row, hrow, rfl, rfl, id⟩,
    Nat.le_refl _, fun _ _ _ _ ho => ho⟩
  obtain ⟨row, hrow, rfl⟩ := Sql.mem_update.mp hrow'
  split
  · exact hf row
  · exact h.manifests row hrow

/-- An object may be stored anywhere. -/
theorem SigningOk.put {s : SigningState} (h : SigningOk sha256 s) (key : String) (o : StoredObject) :
    let s' := { s with
      objects := Function.update s.objects key (some o)
      replaced := if isSignatureKey key ∧ (s.objects key).isSome then s.replaced + 1 else s.replaced }
    SigningOk sha256 s' ∧ Grows s s' := by
  intro s'
  have hgrows : Grows s s' := by
    refine ⟨fun _ hrow _ => hrow, fun row hrow => ⟨row, hrow, rfl, rfl, id⟩, ?_, fun hzero k o' hk ho' => ?_⟩
    · show s.replaced ≤ if isSignatureKey key ∧ (s.objects key).isSome then s.replaced + 1 else s.replaced
      split
      · exact Nat.le_succ _
      · exact Nat.le_refl _
    · -- a key that held an object is not the one stored at
      have hne : k ≠ key := by
        rintro rfl
        have hreplaced : s'.replaced = s.replaced + 1 := if_pos ⟨hk, by simp [ho']⟩
        exact absurd (hreplaced.symm.trans hzero) (Nat.succ_ne_zero _)
      show Function.update s.objects key (some o) k = some o'
      rw [Function.update_of_ne hne]
      exact ho'
  exact ⟨⟨h.ids, fun row hrow hsigned => (h.evidence row hrow hsigned).stable hgrows, h.manifests⟩, hgrows⟩

end

/-! ## What rows say -/

/-- A row that was read: the table has it still, and as it was if it was signed. -/
def Seen (row : SigningIntent) (s : SigningState) : Prop :=
  ∃ row' ∈ s.intents, row'.id = row.id ∧ row'.objectKey = row.objectKey ∧ (row.status = .signed → row' = row)

/-- The intent is signed. -/
def SignedIn (intentId : String) (s : SigningState) : Prop := ∃ row ∈ s.intents, row.id = intentId ∧ row.status = .signed

theorem Seen.stable {row : SigningIntent} {s s' : SigningState} (h : Seen row s) (hs : Grows s s') : Seen row s' := by
  obtain ⟨row', hrow', hid, hkey, hsame⟩ := h
  by_cases hsigned : row.status = .signed
  · obtain rfl := hsame hsigned
    exact ⟨row', hs.signed row' hrow' hsigned, rfl, rfl, fun _ => rfl⟩
  · obtain ⟨row'', hrow'', hid', hkey', -⟩ := hs.kept row' hrow'
    exact ⟨row'', hrow'', hid'.trans hid, hkey'.trans hkey, fun h => absurd h hsigned⟩

theorem SignedIn.stable {intentId : String} {s s' : SigningState} (h : SignedIn intentId s) (hs : Grows s s') :
    SignedIn intentId s' := by
  obtain ⟨row, hrow, hid, hsigned⟩ := h
  exact ⟨row, hs.signed row hrow hsigned, hid, hsigned⟩

theorem Seen.signedIn {row : SigningIntent} {s : SigningState} (h : Seen row s) (hsigned : row.status = .signed) :
    SignedIn row.id s := by
  obtain ⟨row', hrow', hid, -, hsame⟩ := h
  exact ⟨row', hrow', hid, by rw [hsame hsigned, hsigned]⟩

theorem intentRow_some {intentId : String} {s : SigningState} {row : SigningIntent} (h : intentRow intentId s = some row) :
    Seen row s ∧ row.id = intentId :=
  ⟨⟨row, List.mem_of_find?_eq_some h, rfl, rfl, fun _ => rfl⟩, by simpa using List.find?_some h⟩

/-! ## Programs of the control plane -/

/-- What a program keeps among others that sign. -/
abbrev Signs {α : Type} (Q : α → SigningState → Prop) (p : Prog SigningState SigningThrow α) (s : SigningState) : Prop :=
  Keeps (SigningOk sha256) (fun _ _ => True) Grows Grows Q p s

section
variable {α β : Type} {Q : α → SigningState → Prop} {P : SigningState → Prop}

theorem signs_runOne_bind {statement : Sql.Statement SigningState} {f : List Nat → Prog SigningState SigningThrow α}
    {s : SigningState} (h : ∀ s' s'' n, SigningOk sha256 s' → Grows s s' → statement s' 0 = .ok (s'', n) →
      SigningOk sha256 s'' ∧ Grows s' s'' ∧ Signs sha256 Q (f [n]) s'') :
    Signs sha256 Q (runOne statement >>= f) s := by
  refine Sql.keeps_run_bind fun s' s'' ns hi hr hrun _ => ?_
  obtain ⟨s₁, n, ns₁, hfirst, hnil, rfl⟩ := Sql.runAll_cons_ok.mp hrun
  obtain ⟨rfl, rfl⟩ := Sql.runAll_nil_ok.mp hnil
  exact h s' _ n hi hr hfirst

/-- What is known stays known over a program that is run first. -/
theorem signs_bind {Q' : β → SigningState → Prop} {p : Prog SigningState SigningThrow β}
    {f : β → Prog SigningState SigningThrow α} {s : SigningState} (hi : SigningOk sha256 s)
    (hstable : ∀ s s', P s → Grows s s' → P s') (hP : P s) (hp : Signs sha256 Q' p s)
    (hf : ∀ b s', SigningOk sha256 s' → Q' b s' → P s' → Signs sha256 Q (f b) s') : Signs sha256 Q (p >>= f) s :=
  keeps_bind hi (hp.frame hstable hstable hP) fun b s' hi' hq => hf b s' hi' hq.1 hq.2

end

section
variable {sha256}

theorem load_keeps (intentId : String) (s : SigningState) :
    Signs sha256 (fun row s => Seen row s ∧ row.id = intentId) (load intentId) s := by
  refine keeps_read_bind fun s' _ _ => ?_
  cases hrow : intentRow intentId s' with
  | none => trivial
  | some row => exact fun s'' _ hs => ⟨(intentRow_some hrow).1.stable hs, (intentRow_some hrow).2⟩

theorem artifactSize_keeps (row : SigningIntent) (s : SigningState) :
    Signs sha256 (fun _ _ => True) (artifactSize row) s := by
  refine keeps_read_bind fun s' _ _ => ?_
  cases s'.objects row.objectKey with
  | none => trivial
  | some o =>
    simp only
    split
    · trivial
    · split
      · exact fun _ _ _ => trivial
      · trivial

theorem validateEvidence_keeps (row : SigningIntent) (fingerprint : String) (size : Nat) (current : Bool)
    (s : SigningState) : Signs sha256 (fun _ _ => True) (validateEvidence row fingerprint size current) s :=
  keeps_ofExcept_bind fun _ _ => keeps_read_bind fun _ _ _ => keeps_ofExcept fun _ _ _ _ _ => trivial

/-- The object that was checked is there to stay. -/
theorem verifySignatureObject_keeps (key expected : String) (hkey : isSignatureKey key = true) (s : SigningState) :
    Signs sha256 (fun _ s => StoredAt sha256 key expected s) (verifySignatureObject sha256 key expected) s := by
  refine keeps_read_bind fun s' _ _ => keeps_ofExcept fun _ hcheck s'' _ hs => ?_
  suffices hstored : StoredAt sha256 key expected s' from hstored.stable hkey hs
  intro _
  unfold checkSignatureObject at hcheck
  split at hcheck
  · cases hcheck
  · next o ho =>
    obtain ⟨-, hcheck⟩ := Fallible.guard_ok.mp hcheck
    obtain ⟨hdigest, -⟩ := Fallible.guard_ok.mp hcheck
    exact ⟨o, ho, by simpa using hdigest⟩

theorem manifestArtifactSize_keeps (row : ManifestIntent) (s : SigningState) :
    Signs sha256 (fun _ _ => True) (manifestArtifactSize sha256 row) s := by
  unfold manifestArtifactSize
  split
  · trivial
  · split
    · trivial
    · exact keeps_read_bind fun _ _ _ => keeps_ofExcept fun _ _ _ _ _ => trivial

theorem markExpired_keeps {α : Type} {Q : α → SigningState → Prop} (intentId : String)
    (f : List Nat → Prog SigningState SigningThrow α) (s : SigningState)
    (hf : ∀ n s', SigningOk sha256 s' → Grows s s' → Signs sha256 Q (f [n]) s') :
    Signs sha256 Q (markExpired intentId >>= f) s := by
  refine signs_runOne_bind sha256 fun s' s'' n hi hr hrun => ?_
  obtain ⟨rfl, -⟩ := updateIntents_ok hrun
  have hstep := hi.update (p := fun row => row.id = intentId && row.status = .pending)
    (f := fun row => { row with status := .expired }) (fun _ => rfl) (fun _ => rfl) (fun row _ hp => by simp at hp; simp [hp.2])
    (fun row _ _ hsigned => nomatch hsigned)
  exact ⟨hstep.1, hstep.2, hf _ _ hstep.1 (hr.trans hstep.2)⟩

/-! ## Claims -/

/-- An answer that says it is signed is about a signed intent. -/
def AnswersSigned (intent : SignIntent) (s : SigningState) : Prop := intent.signed = true → SignedIn intent.id s

theorem AnswersSigned.stable {intent : SignIntent} {s s' : SigningState} (h : AnswersSigned intent s) (hs : Grows s s') :
    AnswersSigned intent s' := fun hsigned => (h hsigned).stable hs

theorem response_ok {row : SigningIntent} {fingerprint : String} {size : Nat} {intent : SignIntent}
    (h : response row fingerprint size = .ok intent) : intent.id = row.id ∧ (intent.signed = true ↔ row.status = .signed) := by
  obtain ⟨expiresAt, -, h⟩ := Fallible.bind_ok.mp h
  obtain ⟨signature, -, h⟩ := Fallible.bind_ok.mp h
  cases h
  exact ⟨rfl, by simp⟩

theorem manifestResponse_ok {row : ManifestIntent} {fingerprint : String} {size : Nat} {intent : SignIntent}
    (h : manifestResponse row fingerprint size = .ok intent) : intent.signed = true ↔ row.status = .signed := by
  obtain ⟨signature, -, h⟩ := Fallible.bind_ok.mp h
  cases h
  simp

theorem answers_keeps {row : SigningIntent} {fingerprint : String} {size : Nat} {s : SigningState} (hseen : Seen row s) :
    Signs sha256 AnswersSigned (ofExcept (response row fingerprint size)) s := by
  refine keeps_ofExcept fun intent hintent s' _ hs hsigned => ?_
  obtain ⟨hid, hiff⟩ := response_ok hintent
  rw [hid]
  exact (hseen.stable hs).signedIn (hiff.mp hsigned)

theorem answerSigned_keeps {row : SigningIntent} (fingerprint : String) {s : SigningState} (hi : SigningOk sha256 s)
    (hseen : Seen row s) : Signs sha256 AnswersSigned (answerSigned row fingerprint) s := by
  refine signs_bind sha256 hi (fun _ _ => Seen.stable) hseen (artifactSize_keeps row s) fun size s₁ hi₁ _ hseen₁ => ?_
  refine signs_bind sha256 hi₁ (fun _ _ => Seen.stable) hseen₁ (validateEvidence_keeps row fingerprint size false s₁)
    fun _ s₂ _ _ hseen₂ => ?_
  exact answers_keeps hseen₂

/-- A manifest's intent is never signed, so no answer says it is. -/
theorem claimManifestIntent_keeps {row : ManifestIntent} (fingerprint : String) (hrow : row.status ≠ .signed)
    (s : SigningState) : Signs sha256 AnswersSigned (claimManifestIntent sha256 row fingerprint) s := by
  have hanswer : ∀ size s, Signs sha256 AnswersSigned (ofExcept (manifestResponse row fingerprint size)) s := by
    intro size s
    refine keeps_ofExcept fun intent hintent s' _ _ hsigned => ?_
    exact absurd ((manifestResponse_ok hintent).mp hsigned) hrow
  unfold claimManifestIntent
  split
  · trivial
  · split
    · trivial
    · refine keeps_read_bind fun s₁ hi₁ _ => ?_
      split
      · refine signs_runOne_bind sha256 fun s₂ s₃ n hi₂ _ hrun => ?_
        cases hrun
        have hstep := hi₂.updateManifests (p := fun r => r.id = row.id && r.status = .pending)
          (f := fun r => { r with status := .expired }) (by simp)
        exact ⟨hstep.1, hstep.2, trivial⟩
      · refine keeps_read_bind fun s₂ hi₂ _ => keeps_ofExcept_bind fun _ _ => ?_
        refine keeps_bind hi₂ (manifestArtifactSize_keeps row s₂) fun size s₃ hi₃ _ => ?_
        split
        · next hsigned _ _ => exact absurd hsigned hrow
        · exact hanswer size s₃

/-- What a row says of its table is known again after it was read again. -/
theorem retryFailed_keeps {row : SigningIntent} (expiresAt timestamp : Int) {s : SigningState} (hseen : Seen row s) :
    Signs sha256 (fun row s => Seen row s) (retryFailed row expiresAt timestamp) s := by
  unfold retryFailed
  split
  · split
    · exact markExpired_keeps row.id _ s fun _ _ _ _ => trivial
    · refine signs_runOne_bind sha256 fun s₁ s₂ n hi₁ _ hrun => ?_
      obtain ⟨rfl, -⟩ := updateIntents_ok hrun
      have hstep := hi₁.update
        (p := fun r => r.id = row.id && r.status = .failed && r.signatureKey = none && expiresBy r > timestamp)
        (f := fun r => { r with status := .pending, claimedAt := none, claimExpiresAt := none }) (fun _ => rfl)
        (fun _ => rfl) (fun r _ hp => by simp at hp; simp [hp.1.1.2]) (fun r _ _ hsigned => nomatch hsigned)
      refine ⟨hstep.1, hstep.2, ?_⟩
      refine keeps_read_bind fun s₃ _ _ => ?_
      cases hrow : intentRow row.id s₃ with
      | none => trivial
      | some row' => exact fun s₄ _ hs => (intentRow_some hrow).1.stable hs
  · exact fun s' _ hs => hseen.stable hs

theorem takeClaim_keeps {row : SigningIntent} (size : Nat) (timestamp : Int) (fingerprint : String) {s : SigningState}
    (hseen : Seen row s) : Signs sha256 (fun row s => Seen row s) (takeClaim row size timestamp fingerprint) s := by
  unfold takeClaim
  split
  · refine signs_runOne_bind sha256 fun s₁ s₂ n hi₁ _ hrun => ?_
    obtain ⟨rfl, -⟩ := updateIntents_ok hrun
    have hpending : ∀ r : SigningIntent, (r.id = row.id && r.status = .pending && expiresBy r > timestamp &&
        r.claimExpiresAt.all (· ≤ timestamp)) = true → r.status = .pending := by
      intro r hp
      simp only [Bool.and_eq_true, decide_eq_true_eq] at hp
      exact hp.1.1.2
    have hstep := hi₁.update
      (p := fun r => r.id = row.id && r.status = .pending && expiresBy r > timestamp &&
        r.claimExpiresAt.all (· ≤ timestamp))
      (f := fun r => { r with expiresAt := some (expiresBy r), artifactSize := some size, claimedAt := some timestamp,
                              claimExpiresAt := some (timestamp + signingClaimTtlSeconds),
                              keyFingerprint := some fingerprint })
      (fun _ => rfl) (fun _ => rfl) (fun r _ hp => by simp [hpending r hp])
      (fun r _ hp hsigned => by rw [show _ = r.status from rfl, hpending r hp] at hsigned; cases hsigned)
    refine ⟨hstep.1, hstep.2, ?_⟩
    refine keeps_read_bind fun s₃ _ _ => ?_
    cases hrow : intentRow row.id s₃ with
    | none => trivial
    | some row' => exact fun s₄ _ hs => (intentRow_some hrow).1.stable hs
  · exact fun s' _ hs => hseen.stable hs

theorem claimSigningIntent_keeps (env : ControlEnv) (intentId : String) (s : SigningState) :
    Signs sha256 AnswersSigned (claimSigningIntent sha256 env intentId) s := by
  unfold claimSigningIntent
  split
  · trivial
  · refine keeps_ofExcept_bind fun fingerprint _ => keeps_read_bind fun s₁ hi₁ _ => ?_
    cases hmanifest : manifestRow intentId s₁ with
    | some row =>
      exact claimManifestIntent_keeps fingerprint (hi₁.manifests row (List.mem_of_find?_eq_some hmanifest)) s₁
    | none =>
      refine keeps_bind hi₁ (load_keeps intentId s₁) fun found s₂ hi₂ hfound => ?_
      refine keeps_read_bind fun s₃ hi₃ hs₃ => keeps_ofExcept_bind fun expiresAt _ => ?_
      split
      · trivial
      · refine keeps_bind hi₃ (retryFailed_keeps expiresAt s₃.clock (hfound.1.stable hs₃)) fun row s₄ hi₄ hseen₄ => ?_
        split
        · exact answerSigned_keeps fingerprint hi₄ hseen₄
        · split
          · exact markExpired_keeps intentId _ s₄ fun _ _ _ _ => trivial
          · refine signs_bind sha256 hi₄ (fun _ _ => Seen.stable) hseen₄ (artifactSize_keeps row s₄)
              fun size s₅ hi₅ _ hseen₅ => ?_
            refine signs_bind sha256 hi₅ (fun _ _ => Seen.stable) hseen₅
              (validateEvidence_keeps row fingerprint size true s₅) fun _ s₆ hi₆ _ hseen₆ => ?_
            refine keeps_bind hi₆ (takeClaim_keeps size s₃.clock fingerprint hseen₆) fun claimed s₇ hi₇ hseen₇ => ?_
            split
            · exact answerSigned_keeps fingerprint hi₇ hseen₇
            · split
              · trivial
              · refine signs_bind sha256 hi₇ (fun _ _ => Seen.stable) hseen₇ (artifactSize_keeps claimed s₇)
                  fun claimedSize s₈ hi₈ _ hseen₈ => ?_
                refine signs_bind sha256 hi₈ (fun _ _ => Seen.stable) hseen₈
                  (validateEvidence_keeps claimed fingerprint claimedSize true s₈) fun _ s₉ _ _ hseen₉ => ?_
                exact answers_keeps hseen₉

/-! ## Completions -/

theorem completeManifestSigningIntent_keeps (event : SigningEvent) (fingerprint : String) {s : SigningState}
    (hsig : isSignatureKey event.signatureKey = true) :
    Signs sha256 (fun _ s => SignedIn event.intentId s) (completeManifestSigningIntent sha256 event fingerprint) s := by
  refine keeps_read_bind fun s₁ hi₁ _ => ?_
  cases hfound : manifestRow event.intentId s₁ with
  | none => trivial
  | some row =>
    have hrow : row.status ≠ .signed := hi₁.manifests row (List.mem_of_find?_eq_some hfound)
    simp only [hrow, if_false]
    split
    · trivial
    · split
      · trivial
      · split
        · trivial
        · refine keeps_read_bind fun s₂ hi₂ _ => ?_
          split
          · trivial
          · refine keeps_bind hi₂ (manifestArtifactSize_keeps row s₂) fun _ s₃ hi₃ _ => ?_
            refine keeps_bind hi₃ (verifySignatureObject_keeps _ _ hsig s₃) fun _ s₄ hi₄ _ => ?_
            refine keeps_read_bind fun s₅ _ _ => signs_runOne_bind sha256 fun s₆ s₇ n hi₆ _ hrun => ?_
            -- the statement raises or changes nothing
            obtain rfl : s₆ = s₇ := by
              unfold updateManifestInputs at hrun
              split at hrun
              · cases hrun
              · cases hrun
                rfl
            refine ⟨hi₆, refl_of Grows s₆, keeps_read_bind fun s₈ hi₈ _ => ?_⟩
            cases hcurrent : manifestRow event.intentId s₈ with
            | none => trivial
            | some r =>
              have hr : r.status ≠ .signed := hi₈.manifests r (List.mem_of_find?_eq_some hcurrent)
              simp only [hr, false_and, if_false]
              trivial

theorem eventMatches_key {row : SigningIntent} {event : SigningEvent} (h : eventMatches row event = true) :
    event.signatureKey = row.objectKey ++ ".sig" := by
  unfold eventMatches at h
  obtain ⟨h, -⟩ := Bool.and_eq_true_iff.mp h
  obtain ⟨-, h⟩ := Bool.and_eq_true_iff.mp h
  exact of_decide_eq_true h

/-- Completing records the digest of what is stored. -/
theorem signStatement_ok {event : SigningEvent} {fingerprint : String} {timestamp : Int} {s s' : SigningState} {m n : Nat}
    {row : SigningIntent} (hi : SigningOk sha256 s) (hseen : Seen row s) (hid : row.id = event.intentId)
    (hkey : event.signatureKey = row.objectKey ++ ".sig")
    (hstored : StoredAt sha256 event.signatureKey event.signatureSha256 s)
    (hrun : signStatement event fingerprint timestamp s m = .ok (s', n)) :
    SigningOk sha256 s' ∧ Grows s s' ∧ (n ≠ 0 → SignedIn event.intentId s') := by
  obtain ⟨rfl, rfl⟩ := updateIntents_ok hrun
  have hmatch : ∀ r : SigningIntent, (r.id = event.intentId && (r.status = .pending || r.status = .failed) &&
      expiresBy r > timestamp) = true → r.id = event.intentId ∧ (r.status ≠ .signed ∧ r.status ≠ .expired) ∧
        expiresBy r > timestamp := by
    intro r hp
    simp only [Bool.and_eq_true, Bool.or_eq_true, decide_eq_true_eq] at hp
    refine ⟨hp.1.1, ?_, hp.2⟩
    rcases hp.1.2 with h | h <;> simp [h]
  have hstep := hi.update
    (p := fun r => r.id = event.intentId && (r.status = .pending || r.status = .failed) && expiresBy r > timestamp)
    (f := fun r => { r with status := .signed, signatureKey := some event.signatureKey,
                            signatureSha256 := some event.signatureSha256, consumedAt := some timestamp,
                            keyFingerprint := some fingerprint, claimExpiresAt := none })
    (fun _ => rfl) (fun _ => rfl) (fun r _ hp => (hmatch r hp).2.1) (fun r hr hp _ => by
      -- the row is the one that was read, by its id
      obtain ⟨row', hrow', hid', hkey', -⟩ := hseen
      obtain rfl := hi.eq_of_id hr hrow' ((hmatch r hp).1.trans (hid'.trans hid).symm)
      have hsame : event.signatureKey = r.objectKey ++ ".sig" := by rw [hkey, hkey']
      exact ⟨⟨timestamp, rfl, (hmatch r hp).2.2⟩, event.signatureSha256, congrArg some hsame, rfl, hsame ▸ hstored⟩)
  refine ⟨hstep.1, hstep.2, fun hn => ?_⟩
  obtain ⟨r, hr, hp⟩ := Sql.exists_of_update hn
  refine ⟨_, Sql.mem_update.mpr ⟨r, hr, rfl⟩, ?_⟩
  rw [if_pos hp]
  exact ⟨(hmatch r hp).1, rfl⟩

theorem completeOpen_keeps {row : SigningIntent} {event : SigningEvent} (fingerprint : String) {s : SigningState}
    (hseen : Seen row s) (hid : row.id = event.intentId) (hkey : event.signatureKey = row.objectKey ++ ".sig") :
    Signs sha256 (fun _ s => SignedIn event.intentId s) (completeOpen sha256 row event fingerprint) s := by
  have hsig : isSignatureKey event.signatureKey = true := hkey ▸ isSignatureKey_append _
  unfold completeOpen
  split
  · trivial
  · refine keeps_ofExcept_bind fun expiresAt _ => keeps_read_bind fun s₁ hi₁ hs₁ => ?_
    have hseen₁ := hseen.stable hs₁
    split
    · exact markExpired_keeps event.intentId _ s₁ fun _ _ _ _ => trivial
    · refine signs_bind sha256 hi₁ (fun _ _ => Seen.stable) hseen₁ (artifactSize_keeps row s₁)
        fun size s₂ hi₂ _ hseen₂ => ?_
      refine signs_bind sha256 hi₂ (fun _ _ => Seen.stable) hseen₂ (validateEvidence_keeps row fingerprint size true s₂)
        fun _ s₃ hi₃ _ hseen₃ => ?_
      refine signs_bind sha256 hi₃ (fun _ _ => Seen.stable) hseen₃ (verifySignatureObject_keeps _ _ hsig s₃)
        fun _ s₄ hi₄ hstored₄ hseen₄ => ?_
      refine keeps_read_bind fun s₅ _ hs₅ => signs_runOne_bind sha256 fun s₆ s₇ n hi₆ hs₆ hrun => ?_
      have hs := hs₅.trans hs₆
      obtain ⟨hi₇, hg₇, hdone⟩ := signStatement_ok hi₆ (hseen₄.stable hs) hid hkey (hstored₄.stable hsig hs) hrun
      refine ⟨hi₇, hg₇, ?_⟩
      split
      · refine keeps_bind hi₇ (load_keeps event.intentId s₇) fun current s₈ _ ⟨hcurrent, hcurrentId⟩ => ?_
        split
        · next hsame => exact fun s₉ _ hs₉ => hcurrentId ▸ (hcurrent.stable hs₉).signedIn hsame.1
        · trivial
      · next hchanged => exact fun s₈ _ hs₈ => (hdone (by simpa using hchanged)).stable hs₈

theorem completeSigned_keeps {row : SigningIntent} {event : SigningEvent} {s : SigningState} (hi : SigningOk sha256 s)
    (hin : SignedIn event.intentId s) (hsig : isSignatureKey event.signatureKey = true) :
    Signs sha256 (fun _ s => SignedIn event.intentId s) (completeSigned sha256 row event) s := by
  unfold completeSigned
  split
  · refine signs_bind sha256 hi (fun _ _ => SignedIn.stable) hin (verifySignatureObject_keeps _ _ hsig s)
      fun _ s₁ _ _ hin₁ => ?_
    exact fun s₂ _ hs => hin₁.stable hs
  · trivial

theorem completeSigningIntent_keeps (env : ControlEnv) (event : SigningEvent) {s : SigningState}
    (hi : SigningOk sha256 s) (hsig : isSignatureKey event.signatureKey = true) :
    Signs sha256 (fun _ s => SignedIn event.intentId s) (completeSigningIntent sha256 env event) s := by
  unfold completeSigningIntent
  refine keeps_ofExcept_bind fun fingerprint _ => ?_
  split
  · trivial
  · split
    · trivial
    · refine keeps_ofExcept_bind fun key _ => ?_
      split
      · trivial
      · split
        · exact completeManifestSigningIntent_keeps event fingerprint hsig
        · refine keeps_bind hi (load_keeps event.intentId s) fun row s₁ hi₁ ⟨hseen₁, hid⟩ => ?_
          split
          · trivial
          · next hmatches =>
            have hkey := eventMatches_key (Bool.of_not_eq_false hmatches)
            split
            · next hsigned => exact completeSigned_keeps hi₁ (hid ▸ hseen₁.signedIn hsigned) hsig
            · exact completeOpen_keeps fingerprint hseen₁ hid hkey

/-! ## Signers -/

theorem putObject_keeps (key : String) (o : StoredObject) (s : SigningState) :
    Signs sha256 (fun _ _ => True) (putObject key o) s := by
  intro s' hi _ _
  obtain ⟨hi', hg⟩ := hi.put key o
  exact ⟨hi', hg, fun _ _ _ => trivial⟩

theorem getObject_keeps (key missing : String) (s : SigningState) :
    Signs sha256 (fun _ _ => True) (getObject key missing) s := by
  refine keeps_read_bind fun s' _ _ => ?_
  cases s'.objects key with
  | none => trivial
  | some o => exact fun _ _ _ => trivial

theorem persistPublicKey_keeps (signer : Signer) (s : SigningState) :
    Signs sha256 (fun _ _ => True) (persistPublicKey signer) s := by
  refine keeps_read_bind fun s₁ hi₁ _ => ?_
  cases s₁.objects signer.key with
  | some o =>
    simp only
    split
    · trivial
    · exact fun _ _ _ => trivial
  | none => exact keeps_bind hi₁ (putObject_keeps _ _ s₁) fun _ _ _ _ _ _ _ => trivial

theorem readExistingSignatureObject_keeps (intent : SignIntent) (s : SigningState) :
    Signs sha256 (fun _ _ => True) (readExistingSignatureObject sha256 intent) s := by
  refine keeps_read_bind fun s₁ hi₁ _ => ?_
  cases s₁.objects (intent.artifact.key ++ ".sig") with
  | none => exact fun _ _ _ => trivial
  | some head =>
    simp only
    split
    · trivial
    · exact keeps_bind hi₁ (getObject_keeps _ _ s₁) fun _ _ _ _ => keeps_ofExcept_bind fun _ _ _ _ _ => trivial

theorem signArtifact_keeps (run : SignerRun) (intent : SignIntent) {s : SigningState} (hi : SigningOk sha256 s) :
    Signs sha256 (fun _ _ => True) (signArtifact sha256 run intent) s := by
  refine keeps_bind hi (getObject_keeps _ _ s) fun object s₁ _ _ => keeps_ofExcept_bind fun _ _ => ?_
  cases run.sign object.bytes with
  | error message => trivial
  | ok bytes =>
    refine keeps_ofExcept_bind fun _ _ => ?_
    split
    · trivial
    · exact fun _ _ _ => trivial

theorem verifySignature_keeps (signer : Signer) (intent : SignIntent) (signature : Bytes) {s : SigningState}
    (hi : SigningOk sha256 s) : Signs sha256 (fun _ _ => True) (verifySignature sha256 signer intent signature) s := by
  refine keeps_bind hi (getObject_keeps _ _ s) fun object s₁ hi₁ _ => keeps_ofExcept_bind fun _ _ => ?_
  split
  · trivial
  · exact keeps_bind hi₁ (getObject_keeps _ _ s₁) fun _ _ _ _ => keeps_ofExcept fun _ _ _ _ _ => trivial

theorem persistSignature_keeps (signer : Signer) (intent : SignIntent) (bytes : Bytes) (s : SigningState) :
    Signs sha256 (fun _ _ => True) (persistSignature sha256 signer intent bytes) s := by
  refine keeps_read_bind fun s₁ hi₁ _ => ?_
  cases s₁.objects (intent.artifact.key ++ ".sig") with
  | none => exact keeps_bind hi₁ (putObject_keeps _ _ s₁) fun _ _ _ _ _ _ _ => trivial
  | some o =>
    refine keeps_bind hi₁ (readExistingSignatureObject_keeps intent s₁) fun persisted s₂ hi₂ _ => ?_
    cases persisted with
    | none => trivial
    | some signature => exact keeps_bind hi₂ (verifySignature_keeps signer intent _ hi₂) fun _ _ _ _ _ _ _ => trivial

theorem readPersistedSignature_keeps (intent : SignIntent) (signature : SignatureRef) {s : SigningState}
    (hi : SigningOk sha256 s) : Signs sha256 (fun _ _ => True) (readPersistedSignature sha256 intent signature) s := by
  unfold readPersistedSignature
  split
  · trivial
  · refine keeps_bind hi (readExistingSignatureObject_keeps intent s) fun persisted s₁ _ _ => ?_
    cases persisted with
    | none => trivial
    | some found =>
      simp only
      split
      · trivial
      · exact fun _ _ _ => trivial

theorem checkEvent_signatureKey {event : SigningEvent} (h : checkEvent event = .ok ()) :
    isSignatureKey event.signatureKey = true := by
  unfold checkEvent at h
  obtain ⟨hfalse, -⟩ := Fallible.guard_ok.mp h
  simp only [not_or] at hfalse
  exact Bool.of_not_eq_false hfalse.2.2.2.2.2.2.2.2.2.1

theorem postSigningEvent_keeps (env : ControlEnv) (event : SigningEvent) {s : SigningState} (hi : SigningOk sha256 s) :
    Signs sha256 (fun _ s => SignedIn event.intentId s) (postSigningEvent sha256 env event) s := by
  unfold postSigningEvent
  refine keeps_ofExcept_bind fun _ hcheck => ?_
  have hsig := checkEvent_signatureKey hcheck
  generalize hlower : { event with fingerprint := lower event.fingerprint } = posted
  obtain ⟨hid, hkey⟩ : event.intentId = posted.intentId ∧ event.signatureKey = posted.signatureKey := by
    rw [← hlower]
    exact ⟨rfl, rfl⟩
  rw [hid]
  exact completeSigningIntent_keeps env posted hi (hkey ▸ hsig)

theorem signIntent_keeps (run : SignerRun) (intent : SignIntent) (publicKeyKey : String) (s : SigningState) :
    Signs sha256 (fun _ s => SignedIn intent.id s) (signIntent sha256 run intent publicKeyKey) s := by
  refine keeps_read_bind fun s₁ hi₁ _ => keeps_ofExcept_bind fun _ _ => ?_
  refine keeps_bind hi₁ (readExistingSignatureObject_keeps intent s₁) fun existing s₂ hi₂ _ => ?_
  have hrest : ∀ bytes s, SigningOk sha256 s →
      Signs sha256 (fun _ s => SignedIn intent.id s) (do
        let _ ← verifySignature sha256 run.signer intent bytes
        let signature ← persistSignature sha256 run.signer intent bytes
        let _ ← recordAudit sha256 run intent signature publicKeyKey
        pure (⟨signature.key, signature.sha256⟩ : SignResult)) s := by
    intro bytes s hi
    refine keeps_bind hi (verifySignature_keeps run.signer intent bytes hi) fun _ s₃ hi₃ _ => ?_
    refine keeps_bind hi₃ (persistSignature_keeps run.signer intent bytes s₃) fun signature s₄ hi₄ _ => ?_
    refine keeps_bind hi₄ (keeps_mapError (postSigningEvent_keeps run.control _ hi₄)) fun _ s₅ _ hin => ?_
    exact fun s₆ _ hs => hin.stable hs
  cases existing with
  | some signature => exact hrest signature.bytes s₂ hi₂
  | none => exact keeps_bind hi₂ (signArtifact_keeps run intent hi₂) fun bytes s₃ hi₃ _ => hrest bytes s₃ hi₃

/-- A signer that answers has signed its intent, or found it signed. -/
theorem handleSign_keeps (run : SignerRun) {s : SigningState} (hi : SigningOk sha256 s) :
    Signs sha256 (fun _ s => SignedIn run.intentId s) (handleSign sha256 run) s := by
  refine keeps_bind hi (keeps_mapError (claimSigningIntent_keeps run.control run.intentId s)) fun intent s₁ hi₁ hanswer => ?_
  split
  · trivial
  · next hid =>
    have hid : intent.id = run.intentId := Classical.not_not.mp hid
    rw [← hid]
    refine keeps_read_bind fun s₂ hi₂ hs₂ => keeps_ofExcept_bind fun _ _ => ?_
    refine signs_bind sha256 hi₂ (fun _ _ => AnswersSigned.stable) (hanswer.stable hs₂)
      (persistPublicKey_keeps run.signer s₂) fun publicKeyKey s₃ hi₃ _ hanswer₃ => ?_
    split
    · next hsigned =>
      cases intent.signature with
      | none => trivial
      | some signature =>
        refine signs_bind sha256 hi₃ (fun _ _ => SignedIn.stable) (hanswer₃ hsigned)
          (readPersistedSignature_keeps intent signature hi₃) fun persisted s₄ hi₄ _ hin₄ => ?_
        refine signs_bind sha256 hi₄ (fun _ _ => SignedIn.stable) hin₄
          (verifySignature_keeps run.signer intent persisted.bytes hi₄) fun _ s₅ _ _ hin₅ => ?_
        exact fun s₆ _ hs => hin₅.stable hs
    · exact signIntent_keeps run intent publicKeyKey s₃

/-! ## Who asks -/

theorem insertIntent_ok {row : SigningIntent} {s s' : SigningState} {m n : Nat} (h : insertIntent row s m = .ok (s', n)) :
    (∀ r ∈ s.intents, r.id ≠ row.id) ∧ s' = { s with intents := s.intents ++ [row] } := by
  unfold insertIntent at h
  split at h
  · cases h
  · obtain ⟨⟨intents, k⟩, hinsert, h⟩ := Fallible.bind_ok.mp h
    obtain ⟨hfresh, rfl, rfl⟩ := Sql.insert_ok.mp hinsert
    cases h
    exact ⟨fun r hr => by simpa using hfresh r hr, rfl⟩

/-- A new intent is not signed. -/
theorem SigningOk.insert {s : SigningState} (h : SigningOk sha256 s) {row : SigningIntent}
    (hfresh : ∀ r ∈ s.intents, r.id ≠ row.id) (hrow : row.status ≠ .signed) :
    SigningOk sha256 { s with intents := s.intents ++ [row] } ∧ Grows s { s with intents := s.intents ++ [row] } := by
  have hgrows : Grows s { s with intents := s.intents ++ [row] } :=
    ⟨fun _ hr _ => List.mem_append_left _ hr, fun r hr => ⟨r, List.mem_append_left _ hr, rfl, rfl, id⟩, Nat.le_refl _,
      fun _ _ _ _ ho => ho⟩
  refine ⟨⟨?_, fun r hr hsigned => ?_, h.manifests⟩, hgrows⟩
  · rw [List.map_append, List.nodup_append]
    refine ⟨h.ids, by simp, fun x hx y hy => ?_⟩
    obtain ⟨r, hr, rfl⟩ := List.mem_map.mp hx
    obtain rfl := List.mem_singleton.mp hy
    exact hfresh r hr
  · rcases List.mem_append.mp hr with hr | hr
    · exact (h.evidence r hr hsigned).stable hgrows
    · obtain rfl := List.mem_singleton.mp hr
      exact absurd hsigned hrow

theorem askSigner_keeps (run : SignerRun) (reached : Bool) {s : SigningState} (hi : SigningOk sha256 s) :
    Signs sha256 (fun x s => ∀ a, x = .ok a → SignedIn run.intentId s) (askSigner sha256 run reached) s := by
  unfold askSigner
  split
  · exact keeps_attempt (handleSign_keeps run hi)
  · exact fun _ _ _ _ h => nomatch h

theorem failIntent_keeps (intentId : String) (e : SigningThrow) (s : SigningState) :
    Signs sha256 (fun _ _ => True) (failIntent intentId e) s := by
  refine signs_runOne_bind sha256 fun s₁ s₂ n hi₁ _ hrun => ?_
  obtain ⟨rfl, -⟩ := updateIntents_ok hrun
  have hstep := hi₁.update (p := fun r => r.id = intentId && r.status = .pending)
    (f := fun r => { r with status := .failed }) (fun _ => rfl) (fun _ => rfl) (fun r _ hp => by simp at hp; simp [hp.2])
    (fun r _ _ hsigned => nomatch hsigned)
  exact ⟨hstep.1, hstep.2, trivial⟩

theorem requestSignature_keeps (input : SignatureInput) (run : SignerRun) (reached : Bool) (s : SigningState) :
    Signs sha256 (fun _ _ => True) (requestSignature sha256 input run reached) s := by
  refine keeps_read_bind fun s₁ _ _ => ?_
  split
  · trivial
  · refine signs_runOne_bind sha256 fun s₂ s₃ n hi₂ _ hinsert => ?_
    obtain ⟨hfresh, rfl⟩ := insertIntent_ok hinsert
    obtain ⟨hi₃, hg₃⟩ := hi₂.insert hfresh (by simp [newIntent])
    refine ⟨hi₃, hg₃, keeps_bind hi₃ (askSigner_keeps run reached hi₃) fun result s₄ hi₄ hanswer => ?_⟩
    cases result with
    | error cause => exact failIntent_keeps _ _ s₄
    | ok result =>
      have hin : SignedIn run.intentId s₄ := hanswer result rfl
      simp only
      split
      · exact failIntent_keeps _ _ s₄
      · refine keeps_read_bind fun s₅ _ hs₅ => ?_
        split
        · exact failIntent_keeps _ _ s₅
        · refine keeps_read_bind fun s₆ _ hs₆ => signs_runOne_bind sha256 fun s₇ s₈ n hi₇ hs₇ hrun => ?_
          obtain ⟨rfl, -⟩ := updateIntents_ok hrun
          -- the signer's answer means that the intent is not pending any more
          obtain ⟨row, hrow, hid, hsigned⟩ := hin.stable (hs₅.trans (hs₆.trans hs₇))
          have hnone : ∀ r ∈ s₇.intents, (r.id = run.intentId && r.status = .pending) = false := by
            intro r hr
            by_contra hp
            simp only [Bool.not_eq_false, Bool.and_eq_true, decide_eq_true_eq] at hp
            obtain rfl := hi₇.eq_of_id hr hrow (hp.1.trans hid.symm)
            rw [hp.2] at hsigned
            cases hsigned
          rw [Sql.update_none hnone]
          exact ⟨hi₇, refl_of Grows s₇, fun _ _ _ => trivial⟩

theorem SigningOk.insertManifest {s : SigningState} (h : SigningOk sha256 s) {row : ManifestIntent}
    (hrow : row.status ≠ .signed) :
    SigningOk sha256 { s with manifests := s.manifests ++ [row] } ∧ Grows s { s with manifests := s.manifests ++ [row] } := by
  refine ⟨⟨h.ids, h.evidence, fun r hr => ?_⟩, fun _ hr _ => hr, fun r hr => ⟨r, hr, rfl, rfl, id⟩, Nat.le_refl _,
    fun _ _ _ _ ho => ho⟩
  rcases List.mem_append.mp hr with hr | hr
  · exact h.manifests r hr
  · obtain rfl := List.mem_singleton.mp hr
    exact hrow

theorem requestManifestSignature_keeps (candidateId objectKey artifactSha256 : String) (run : SignerRun) (reached : Bool)
    (s : SigningState) :
    Signs sha256 (fun _ _ => True) (requestManifestSignature sha256 candidateId objectKey artifactSha256 run reached) s := by
  refine keeps_read_bind fun s₁ _ _ => ?_
  split
  · trivial
  · refine signs_runOne_bind sha256 fun s₂ s₃ n hi₂ _ hinsert => ?_
    obtain ⟨⟨manifests, k⟩, hok, hinsert⟩ := Fallible.bind_ok.mp hinsert
    obtain ⟨-, rfl, rfl⟩ := Sql.insert_ok.mp hok
    cases hinsert
    have hopen : (newManifestIntent candidateId objectKey artifactSha256 run.intentId s₁.clock
        (lower (run.control.signingFingerprint.getD ""))).status ≠ .signed := by simp [newManifestIntent]
    obtain ⟨hi₃, hg₃⟩ := hi₂.insertManifest hopen
    refine ⟨hi₃, hg₃, keeps_bind hi₃ (askSigner_keeps run reached hi₃) fun result s₄ _ _ => ?_⟩
    cases result with
    | error cause =>
      refine signs_runOne_bind sha256 fun s₅ s₆ n hi₅ _ hrun => ?_
      cases hrun
      obtain ⟨hi₆, hg₆⟩ := hi₅.updateManifests (p := fun r => r.id = run.intentId && r.status = .pending)
        (f := fun r => { r with status := .failed }) (by simp)
      exact ⟨hi₆, hg₆, trivial⟩
    | ok result =>
      simp only
      split
      · trivial
      · refine keeps_read_bind fun s₅ _ _ => ?_
        split
        · exact fun _ _ _ => trivial
        · trivial

end

/-! ## Runs of signing -/

/-- Signers, claims and completions of any intents, and requests for signatures. -/
inductive SigningRequest : Nat → Prog SigningState SigningThrow Unit → Prop where
  | sign (n : Nat) (run : SignerRun) : SigningRequest n (handleSign sha256 run >>= fun _ => pure ())
  | claim (n : Nat) (env : ControlEnv) (intentId : String) :
      SigningRequest n (claimSigningIntent sha256 env intentId >>= fun _ => pure ())
  | complete (n : Nat) (env : ControlEnv) (event : SigningEvent) :
      SigningRequest n (postSigningEvent sha256 env event >>= fun _ => pure ())
  | request (n : Nat) (input : SignatureInput) (run : SignerRun) (reached : Bool) :
      SigningRequest n (requestSignature sha256 input run reached >>= fun _ => pure ())
  | requestManifest (n : Nat) (candidateId objectKey artifactSha256 : String) (run : SignerRun) (reached : Bool) :
      SigningRequest n (requestManifestSignature sha256 candidateId objectKey artifactSha256 run reached >>= fun _ => pure ())

/-- What others do: the clock is anything, other tables change, and so does
what is not stored as a signature. -/
structure SigningMoves (s s' : SigningState) : Prop where
  intents : s'.intents = s.intents
  manifests : s'.manifests = s.manifests
  replaced : s'.replaced = s.replaced
  objects : ∀ key, isSignatureKey key = true → s'.objects key = s.objects key

/-- No intents yet. -/
def signingStart (s : SigningState) : Pool SigningState SigningThrow Unit :=
  ⟨{ s with intents := [], manifests := [], replaced := 0 }, []⟩

variable {sha256} in
theorem SigningMoves.ok {s s' : SigningState} (h : SigningMoves s s') (hi : SigningOk sha256 s) :
    SigningOk sha256 s' ∧ Grows s s' := by
  have hgrows : Grows s s' := by
    refine ⟨fun row hrow _ => h.intents ▸ hrow, fun row hrow => ⟨row, h.intents ▸ hrow, rfl, rfl, id⟩,
      Nat.le_of_eq h.replaced.symm, fun _ key o hkey ho => ?_⟩
    rw [h.objects key hkey, ho]
  refine ⟨⟨h.intents ▸ hi.ids, fun row hrow hsigned => ?_, h.manifests ▸ hi.manifests⟩, hgrows⟩
  rw [h.intents] at hrow
  exact (hi.evidence row hrow hsigned).stable hgrows

theorem signing_agree :
    Pool.Agree (SigningRequest sha256) SigningMoves (SigningOk sha256) (fun _ _ => True) (fun _ => Grows) (fun _ => Grows)
      fun _ _ => True where
  refl _ := inferInstance
  trans _ := inferInstance
  start := by
    rintro n p s hrequest hi
    cases hrequest with
    | sign run => exact keeps_bind hi (handleSign_keeps run hi) fun _ _ _ _ _ _ _ => trivial
    | claim env intentId => exact keeps_bind hi (claimSigningIntent_keeps env intentId s) fun _ _ _ _ _ _ _ => trivial
    | complete env event => exact keeps_bind hi (postSigningEvent_keeps env event hi) fun _ _ _ _ _ _ _ => trivial
    | request input run reached =>
      exact keeps_bind hi (requestSignature_keeps input run reached s) fun _ _ _ _ _ _ _ => trivial
    | requestManifest candidateId objectKey artifactSha256 run reached =>
      exact keeps_bind hi (requestManifestSignature_keeps candidateId objectKey artifactSha256 run reached s)
        fun _ _ _ _ _ _ _ => trivial
  others _ _ _ h := h
  outside h hi := ⟨(h.ok hi).1, fun _ => (h.ok hi).2⟩

/-- A signed intent is as it was, and no other has its id. -/
def SignedStays (s s' : SigningState) : Prop :=
  ∀ row ∈ s.intents, row.status = .signed → row ∈ s'.intents ∧ ∀ row' ∈ s'.intents, row'.id = row.id → row' = row

/-- An expired intent is not signed. -/
def ExpiredStays (s s' : SigningState) : Prop :=
  ∀ row ∈ s.intents, row.status = .expired → ∀ row' ∈ s'.intents, row'.id = row.id → row'.status ≠ .signed

/-- The object at a signed intent's signature key has the recorded digest. -/
def SignaturesStored (s : SigningState) : Prop :=
  ∀ row ∈ s.intents, row.status = .signed →
    ∃ key digest o, row.signatureKey = some key ∧ row.signatureSha256 = some digest ∧ s.objects key = some o ∧
      (sha256 o.bytes).hex = digest

/-- Whatever the order of signing, signed intents stay as they are, in time,
and expired ones are not signed; and where no signature is stored over an
object, what is stored is what was recorded. -/
theorem signing_sound (first : SigningState) (pool later : Pool SigningState SigningThrow Unit)
    (hrun : Pool.Steps (SigningRequest sha256) SigningMoves (signingStart first) pool)
    (hlater : Pool.Steps (SigningRequest sha256) SigningMoves pool later) :
    SignedStays pool.state later.state ∧ ExpiredStays pool.state later.state ∧
      (∀ row ∈ pool.state.manifests, row.status ≠ .signed) ∧
      (∀ row ∈ pool.state.intents, row.status = .signed → ∃ at', row.consumedAt = some at' ∧ at' < expiresBy row) ∧
      (pool.state.replaced = 0 → SignaturesStored sha256 pool.state) := by
  have hagree := signing_agree sha256
  have hstart : (signingStart first).Good (SigningOk sha256) (fun _ _ => True) (fun _ => Grows) (fun _ => Grows)
      fun _ _ => True := Pool.good_start ⟨by simp, by simp, by simp⟩
  have hgood := hstart.steps hagree hrun
  have hgood' := hgood.steps hagree hlater
  have hgrows : Grows pool.state later.state :=
    hgood.steps_state hagree (fun _ _ _ h => h) (fun _ _ hi hmove => (hmove.ok hi).2) hlater
  refine ⟨fun row hrow hsigned => ?_, fun row hrow hexpired row' hrow' hid => ?_, hgood.1.manifests,
    fun row hrow hsigned => (hgood.1.evidence row hrow hsigned).1, fun hzero row hrow hsigned => ?_⟩
  · have hmem := hgrows.signed row hrow hsigned
    exact ⟨hmem, fun row' hrow' hid => hgood'.1.eq_of_id hrow' hmem hid⟩
  · obtain ⟨row'', hrow'', hid', -, hstill⟩ := hgrows.kept row hrow
    obtain rfl := hgood'.1.eq_of_id hrow' hrow'' (hid.trans hid'.symm)
    rw [hstill hexpired]
    simp
  · obtain ⟨-, digest, hkey, hdigest, hstored⟩ := hgood.1.evidence row hrow hsigned
    obtain ⟨o, ho, hsha⟩ := hstored hzero
    exact ⟨_, digest, o, hkey, hdigest, ho, hsha⟩

/-! ## Two signers at once -/

def sampleFingerprint : String := String.ofList (List.replicate 40 'a')

/-- A hash that tells first bytes apart. -/
def firstByteHash (bytes : Bytes) : Hash.Digest := ⟨bytes.headD 0 :: List.replicate 31 0, rfl⟩

def sampleSigner : Signer := ⟨sampleFingerprint, "key-1", some "key", [1], 1024, false, fun _ _ => true⟩

def sampleControl : ControlEnv := ⟨some sampleFingerprint, some "key", none⟩

/-- A run on the sample intent; what it signs with is its own. -/
def sampleSignerRun (signature : UInt8) : SignerRun := ⟨sampleSigner, sampleControl, "i", fun _ => .ok [signature]⟩

def sampleSignatureInput : SignatureInput where
  buildId := "b"
  buildAttempt := none
  revisionId := "r"
  manifestSha256 := (firstByteHash [3]).hex
  objectKey := "x/a.pkg.tar.zst"
  objectKind := .package
  artifactSha256 := (firstByteHash [7]).hex
  artifactSize := 1
  artifactFilename := "a.pkg.tar.zst"

/-- A package is stored, and whatever is asked of the other tables is fine. -/
def sampleBucket : SigningState where
  clock := 1000
  intents := []
  manifests := []
  objects key := if key = "x/a.pkg.tar.zst" then some ⟨[7], []⟩ else none
  review _ _ _ := .ok ()
  candidate _ := .ok ()
  attested _ := .ok ()
  fence _ _ := none
  replaced := 0

/-- An intent is asked for and two signers start on it; both find no signature stored. -/
def signersStarted : Pool SigningState SigningThrow Unit :=
  ((((signingStart sampleBucket).starting
    (requestSignature firstByteHash sampleSignatureInput (sampleSignerRun 1) false >>= fun _ => pure ())).turns [0, 0]).starting
      (handleSign firstByteHash (sampleSignerRun 1) >>= fun _ => pure ())).starting
      (handleSign firstByteHash (sampleSignerRun 2) >>= fun _ => pure ())

/-- The first stores its signature and completes the intent. -/
def firstSigned : Pool SigningState SigningThrow Unit :=
  signersStarted.turns (List.replicate 18 1 ++ List.replicate 15 2 ++ List.replicate 8 1)

/-- Then the second stores its own. -/
def bothStored : Pool SigningState SigningThrow Unit := firstSigned.turns [2]

theorem firstSigned_steps :
    Pool.Steps (SigningRequest firstByteHash) SigningMoves (signingStart sampleBucket) firstSigned := by
  have hstart : Pool.Steps (SigningRequest firstByteHash) SigningMoves (signingStart sampleBucket)
      (signingStart sampleBucket) := .refl
  have hasked := (hstart.starting (.request _ sampleSignatureInput (sampleSignerRun 1) false)).turns [0, 0]
  exact ((hasked.starting (.sign _ (sampleSignerRun 1))).starting (.sign _ (sampleSignerRun 2))).turns _

theorem bothStored_steps : Pool.Steps (SigningRequest firstByteHash) SigningMoves firstSigned bothStored :=
  Pool.turns_steps _ _

theorem firstSigned_view :
    (firstSigned.state.intents.map (·.status)) = [.signed] ∧ firstSigned.state.replaced = 0 := by decide +kernel

theorem firstSigned_sound :
    (firstSigned.state.intents.map (·.status)) = [.signed] ∧ SignaturesStored firstByteHash firstSigned.state := by
  have hsound := signing_sound firstByteHash sampleBucket firstSigned bothStored firstSigned_steps bothStored_steps
  exact ⟨firstSigned_view.1, hsound.2.2.2.2 firstSigned_view.2⟩

theorem bothStored_view :
    (bothStored.state.intents.map fun row => (row.status, row.signatureKey, row.signatureSha256)) =
        [(.signed, some "x/a.pkg.tar.zst.sig", some (firstByteHash [1]).hex)] ∧
      (bothStored.state.objects "x/a.pkg.tar.zst.sig").map (·.bytes) = some [2] := by
  decide +kernel

/-- The object is not the one whose digest was recorded. -/
theorem signature_replaced :
    ¬∀ pool later, Pool.Steps (SigningRequest firstByteHash) SigningMoves (signingStart sampleBucket) pool →
      Pool.Steps (SigningRequest firstByteHash) SigningMoves pool later →
        SignedStays pool.state later.state ∧ ExpiredStays pool.state later.state ∧
          SignaturesStored firstByteHash pool.state := by
  intro h
  obtain ⟨-, -, hstored⟩ := h bothStored bothStored (firstSigned_steps.trans bothStored_steps) .refl
  obtain ⟨hrows, hobject⟩ := bothStored_view
  generalize bothStored.state = s at hstored hrows hobject
  obtain ⟨row, hrow, hcolumns⟩ : ∃ row ∈ s.intents, (row.status, row.signatureKey, row.signatureSha256) =
      (.signed, some "x/a.pkg.tar.zst.sig", some (firstByteHash [1]).hex) :=
    List.mem_map.mp (hrows ▸ List.mem_singleton.mpr rfl)
  simp only [Prod.mk.injEq] at hcolumns
  obtain ⟨hsigned, hkey, hsha⟩ := hcolumns
  obtain ⟨key, digest, o, hkey', hsha', ho, hdigest⟩ := hstored row hrow hsigned
  obtain rfl := Option.some.inj (hkey'.symm.trans hkey)
  obtain rfl := Option.some.inj (hsha'.symm.trans hsha)
  rw [ho, Option.map_some, Option.some.injEq] at hobject
  rw [hobject] at hdigest
  exact absurd hdigest (by decide +kernel)

end Omapkg.Server
