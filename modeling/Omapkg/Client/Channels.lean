import Omapkg.Client.StateFile
/-!
# Replay state by channel

A transaction applied in one channel leaves the replay state of another as it
is, unless that state is the flat one and the map has no entry for it: the
flat state is overwritten and the channel starts over.
-/

namespace Omapkg.Client

open Utf Record

/-! ## Entries -/

theorem lookup_setKey_self {α : Type} (k : String) (v : α) (m : List (String × α)) :
    (setKey k v m).lookup k = some v := by
  induction m with
  | nil => simp [setKey]
  | cons e m ih =>
    obtain ⟨k', v'⟩ := e
    rw [setKey]
    split_ifs with heq hlt
    · simp
    · simp
    · rw [List.lookup_cons, beq_false_of_ne heq, ih]

theorem lookup_setKey_ne {α : Type} {k k' : String} (h : k' ≠ k) (v : α) (m : List (String × α)) :
    (setKey k v m).lookup k' = m.lookup k' := by
  induction m with
  | nil => simp [setKey, h]
  | cons e m ih =>
    obtain ⟨k₁, v₁⟩ := e
    rw [setKey]
    split_ifs with heq hlt
    · subst heq
      rw [List.lookup_cons, List.lookup_cons, beq_false_of_ne h]
    · rw [List.lookup_cons, beq_false_of_ne h]
    · rw [List.lookup_cons, List.lookup_cons, ih]

/-! ## Saving -/

theorem isChannel_ne {c : String} (h : isChannel c = true) : c ≠ "" := by
  rintro rfl
  exact absurd h (by decide)

/-- The channel that was saved. -/
theorem stateForChannel_saved (s selected : LocalState) {c : String} (hc : c ≠ "") :
    stateForChannel (saveChannelState s c selected) c = localStateFromChannel selected.toChannelState := by
  simp only [stateForChannel, saveChannelState, hc, if_false, lookup_setKey_self, channelStateFromLocal]

/-- Another channel keeps its entry, and has nothing without one. -/
theorem stateForChannel_other (s selected : LocalState) {c d : String} (hc : c ≠ "") (hd : d ≠ "") (hne : c ≠ d) :
    stateForChannel (saveChannelState s d selected) c =
      match s.channels.lookup c with
      | some entry => localStateFromChannel entry
      | none => .zero := by
  have hflat : ¬(d = c ∨ (d = "" ∧ c = "stable")) := by
    rintro (h | ⟨h, -⟩)
    · exact hne h.symm
    · exact hd h
  unfold stateForChannel saveChannelState
  simp only [hc, if_false, lookup_setKey_ne hne]
  cases s.channels.lookup c with
  | some entry => rfl
  | none => exact if_neg hflat

theorem saved_valid {s selected : LocalState} (hs : s.Fits) (h : selected.Valid) (c : String) :
    (saveChannelState s c selected).Valid where
  fits :=
    { h.fits.toFits with
      schemaVersion := h.fits.schemaVersion
      channels := setKey_ascending c _ hs.channels
      channelStates := fun e he => by
        rcases setKey_mem he with rfl | he
        · exact h.fits.toFits
        · exact hs.channelStates e he }
  version := h.version
  manifestSha256 := h.manifestSha256
  sequence := h.sequence

/-! ## Independence -/

/-- The digests and counters a replay is judged by are those of another
state. -/
structure SameReplay (s s' : LocalState) : Prop where
  manifestSha256 : s'.manifestSha256 = s.manifestSha256
  systemManifestSha256 : s'.systemManifestSha256 = s.systemManifestSha256
  oprManifestSha256 : s'.oprManifestSha256 = s.oprManifestSha256
  sequence : s'.sequence = s.sequence
  systemSequence : s'.systemSequence = s.systemSequence
  oprSequence : s'.oprSequence = s.oprSequence

/-- The client does not apply the transaction over the state. -/
def Refused (state : LocalState) (tx : Transaction) : Prop :=
  validateFreshness state tx (rollbackAllowed state tx) ≠ .ok ()

/-- The channel's state is the flat one, and nowhere else. -/
def LocalState.OnlyFlat (s : LocalState) (c : String) : Prop :=
  s.channels.lookup c = none ∧ (s.channel = c ∨ (s.channel = "" ∧ c = "stable"))

theorem stateForChannel_onlyFlat {s : LocalState} {c : String} (h : s.OnlyFlat c) : stateForChannel s c = s := by
  simp only [stateForChannel, h.1, ite_self, h.2, if_true]

theorem stateForChannel_unchanged {s : LocalState} {c d : String} (hc : c ≠ "") (hd : d ≠ "") (hne : c ≠ d)
    (selected : LocalState) (h : ¬s.OnlyFlat c) :
    stateForChannel (saveChannelState s d selected) c = stateForChannel s c := by
  rw [stateForChannel_other s selected hc hd hne, stateForChannel, if_neg hc]
  cases hl : s.channels.lookup c with
  | some entry => rfl
  | none => rw [if_neg fun hflat => h ⟨hl, hflat⟩]

/-- Saving an applied transaction in one channel keeps another channel's
replay state, and what it refuses, exactly when that state is not only the flat
one. -/
theorem replay_independent_iff {data : Bytes} {s : LocalState} (hr : readState (some data) = .ok s) {c d : String}
    (hc : isChannel c = true) (hd : isChannel d = true) (hne : c ≠ d) (selected : LocalState) :
    (SameReplay (stateForChannel s c) (stateForChannel (saveChannelState s d selected) c) ∧
      ∀ tx : Transaction, tx.channel = c → Refused (stateForChannel s c) tx →
        Refused (stateForChannel (saveChannelState s d selected) c) tx) ↔ ¬s.OnlyFlat c := by
  have hc := isChannel_ne hc
  have hd := isChannel_ne hd
  constructor
  · rintro ⟨hsame, -⟩ hflat
    have hlost := stateForChannel_other s selected hc hd hne
    have hdigest := hsame.manifestSha256
    rw [hlost, hflat.1, stateForChannel_onlyFlat hflat] at hdigest
    have hvalid := (readState_valid hr).manifestSha256
    rw [← hdigest] at hvalid
    exact absurd hvalid (by decide)
  · intro h
    rw [stateForChannel_unchanged hc hd hne selected h]
    exact ⟨⟨rfl, rfl, rfl, rfl, rfl, rfl⟩, fun _ _ hrefused => hrefused⟩

/-! ## A legacy file -/

/-- A digest of one character. -/
def sampleDigest (c : Char) : String := String.ofList (List.replicate 64 c)

def sampleChannelState (digest : Char) (sequence : Nat) : ChannelState :=
  { ChannelState.zero with
    manifestSha256 := sampleDigest digest
    architecture := "x86_64"
    sequence := sequence }

/-- The state of a file from before channels had states of their own. -/
def legacyState : LocalState := ⟨sampleChannelState 'a' 7, 1, "", []⟩

theorem legacyState_valid : legacyState.Valid := by
  refine ⟨⟨⟨?_, ?_, ?_, ?_⟩, ?_, .nil, by simp [legacyState]⟩, rfl, ?_, ?_⟩ <;> decide +kernel

theorem saved_replay_independent :
    ¬(saveChannelState legacyState "stable" legacyState).OnlyFlat "stable" ∧
      SameReplay (stateForChannel (saveChannelState legacyState "stable" legacyState) "stable")
        (stateForChannel (saveChannelState (saveChannelState legacyState "stable" legacyState) "rc" legacyState)
          "stable") := by
  have hvalid := saved_valid legacyState_valid.fits legacyState_valid "stable"
  have hentry : ¬(saveChannelState legacyState "stable" legacyState).OnlyFlat "stable" := fun h =>
    absurd h.1 (by decide +kernel)
  exact ⟨hentry, ((replay_independent_iff (readState_marshal hvalid) (by decide) (by decide) (by decide)
    legacyState).mpr hentry).1⟩

/-- An RC transaction applied over a legacy file loses the stable state. -/
theorem legacy_replay_lost :
    ¬∀ (data : Bytes) (s : LocalState), readState (some data) = .ok s → ∀ c d : String, isChannel c = true →
      isChannel d = true → c ≠ d → ∀ selected : LocalState,
        SameReplay (stateForChannel s c) (stateForChannel (saveChannelState s d selected) c) := by
  intro h
  have hsame := h _ legacyState (readState_marshal legacyState_valid) "stable" "rc" (by decide) (by decide)
    (by decide) legacyState
  exact absurd hsame.sequence (by decide +kernel)

end Omapkg.Client
