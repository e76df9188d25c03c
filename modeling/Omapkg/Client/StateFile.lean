import Omapkg.Client.GoStruct
import Omapkg.Client.State
/-!
# The state file

The replay state as bytes on disk, and its round trip: a state that was read
or saved is read back as it was written.
-/

namespace Omapkg.Client

open Json Utf Record

/-! ## The file -/

section
variable {ρ : Type} (get : ρ → ChannelState) (set : ChannelState → ρ → ρ)

def channelText (name : String) (read : ChannelState → String) (write : String → ChannelState → ChannelState) :
    Slot ρ :=
  field name stringCodec (fun r => read (get r)) fun a r => set (write a (get r)) r

def channelNumber (name : String) (read : ChannelState → Nat) (write : Nat → ChannelState → ChannelState) :
    Slot ρ :=
  field name uint64Codec (fun r => read (get r)) fun a r => set (write a (get r)) r

/-- The fields of a channel's state, in any struct that has them. -/
def channelFields : List (Slot ρ) :=
  [channelText get set "manifestSha256" (·.manifestSha256) fun a c => { c with manifestSha256 := a },
    channelText get set "releaseId" (·.releaseId) fun a c => { c with releaseId := a },
    channelText get set "systemVersion" (·.systemVersion) fun a c => { c with systemVersion := a },
    channelText get set "oprGeneration" (·.oprGeneration) fun a c => { c with oprGeneration := a },
    channelText get set "systemManifestSha256" (·.systemManifestSha256) fun a c => { c with systemManifestSha256 := a },
    channelText get set "oprManifestSha256" (·.oprManifestSha256) fun a c => { c with oprManifestSha256 := a },
    channelText get set "architecture" (·.architecture) fun a c => { c with architecture := a },
    channelNumber get set "sequence" (·.sequence) fun a c => { c with sequence := a },
    channelNumber get set "systemSequence" (·.systemSequence) fun a c => { c with systemSequence := a },
    channelNumber get set "oprSequence" (·.oprSequence) fun a c => { c with oprSequence := a },
    field "appliedAt" int64Codec (fun r => (get r).appliedAt) fun a r => set { get r with appliedAt := a } r,
    channelText get set "configSha256" (·.configSha256) fun a c => { c with configSha256 := a },
    omitted (· = "")
      (channelText get set "recoveryTarget" (·.recoveryTarget) fun a c => { c with recoveryTarget := a })
      fun r => (get r).recoveryTarget,
    omitted (· = "")
      (channelText get set "recoveryLimits" (·.recoveryLimits) fun a c => { c with recoveryLimits := a })
      fun r => (get r).recoveryLimits]

end

def channelStateCodec : Codec ChannelState := record foldEqual (channelFields id fun a _ => a)

/-- The map of the channels' states. -/
def channelsCodec : Codec (List (String × ChannelState)) := mapCodec channelStateCodec .zero

/-- A state with another flat state. -/
def LocalState.withFlat (flat : ChannelState) (s : LocalState) : LocalState := { s with toChannelState := flat }

def localStateFields : List (Slot LocalState) :=
  [field "schemaVersion" int64Codec (·.schemaVersion) fun a s => { s with schemaVersion := a }] ++
  channelFields LocalState.toChannelState LocalState.withFlat ++
  [omitted (· = "") (field "channel" stringCodec (·.channel) fun a s => { s with channel := a }) (·.channel),
    omitted List.isEmpty (field "channels" channelsCodec (·.channels) fun a s => { s with channels := a })
      (·.channels)]

def localStateCodec : Codec LocalState := record foldEqual localStateFields

/-- `readState` of what is at the path. -/
def readState (file : Option Bytes) : Except GoError LocalState :=
  match file with
  | none => .ok .zero
  | some data =>
    match unmarshal localStateCodec .zero data with
    | none => .error (.new "local manifest state is invalid")
    | some state =>
      if state.schemaVersion ≠ 1 then .error (.new "local manifest state is invalid")
      else if isSha256 state.manifestSha256 = false ∨ state.sequence = 0 then
        .error (.new "local manifest state has invalid identity")
      else .ok state

/-! ## The round trip -/

/-- The numbers are those of 64 bits. -/
structure ChannelState.Fits (c : ChannelState) : Prop where
  sequence : c.sequence < 2 ^ 64
  systemSequence : c.systemSequence < 2 ^ 64
  oprSequence : c.oprSequence < 2 ^ 64
  appliedAt : -2 ^ 63 ≤ c.appliedAt ∧ c.appliedAt < 2 ^ 63

structure LocalState.Fits (s : LocalState) : Prop extends s.toChannelState.Fits where
  schemaVersion : -2 ^ 63 ≤ s.schemaVersion ∧ s.schemaVersion < 2 ^ 63
  channels : s.channels.Pairwise fun a b => a.1 < b.1
  channelStates : ∀ e ∈ s.channels, e.2.Fits

theorem channelFields_read {ρ : Type} (get : ρ → ChannelState) (set : ChannelState → ρ → ρ) {r t : ρ}
    (hget : ∀ a r, get (set a r) = a) (hset : ∀ r, set (get r) r = r) (hfit : (get r).Fits)
    (ht : (get t).recoveryTarget = "" ∧ (get t).recoveryLimits = "") : AllRead r (channelFields get set) t := by
  have same {c : ChannelState} {u : ρ} (h : c = get u) : set c u = u := by rw [h, hset]
  refine ⟨field_reads rfl, field_reads rfl, field_reads rfl, field_reads rfl, field_reads rfl, field_reads rfl,
    field_reads rfl, field_reads (uint64Codec_reads hfit.sequence _), field_reads (uint64Codec_reads hfit.systemSequence _),
    field_reads (uint64Codec_reads hfit.oprSequence _), field_reads (int64Codec_reads hfit.appliedAt _),
    field_reads rfl, omitted_reads (field_reads rfl) fun h => same ?_, omitted_reads (field_reads rfl) fun h => same ?_,
    trivial⟩
  · simp only [decide_eq_true_eq] at h
    simp only [channelText, channelNumber, field, hget, h, ht.1]
  · simp only [decide_eq_true_eq] at h
    simp only [channelText, channelNumber, field, omitted, hget, h, ht.2]

/-- The names of a channel's state. -/
def channelNames : List String :=
  ["manifestSha256", "releaseId", "systemVersion", "oprGeneration", "systemManifestSha256", "oprManifestSha256",
    "architecture", "sequence", "systemSequence", "oprSequence", "appliedAt", "configSha256", "recoveryTarget",
    "recoveryLimits"]

theorem localStateFields_names :
    localStateFields.map Slot.name = "schemaVersion" :: channelNames ++ ["channel", "channels"] := rfl

theorem channelNames_distinct : Distinct foldEqual channelNames := by decide +kernel

theorem localNames_distinct : Distinct foldEqual ("schemaVersion" :: channelNames ++ ["channel", "channels"]) := by
  decide +kernel

theorem channelFields_copy {ρ : Type} (get : ρ → ChannelState) (set : ChannelState → ρ → ρ)
    (hget : ∀ a r, get (set a r) = a) (hset : ∀ a b r, set a (set b r) = set a r) (r t : ρ) :
    (channelFields get set).foldl (fun t f => f.copy r t) t = set (get r) t := by
  simp only [channelFields, channelText, channelNumber, List.foldl_cons, List.foldl_nil, field, omitted, hget, hset]

theorem channelState_reads {c : ChannelState} (h : c.Fits) :
    channelStateCodec.decode (channelStateCodec.encode c) .zero = some c := by
  have hid : ∀ (a r : ChannelState), id ((fun a (_ : ChannelState) => a) a r) = a := fun _ _ => rfl
  exact record_reads channelNames_distinct (channelFields_read id (fun a _ => a) hid (fun _ => rfl) h ⟨rfl, rfl⟩)
    (channelFields_copy id (fun a _ => a) hid (fun _ _ _ => rfl) c .zero)

theorem localState_reads {s : LocalState} (h : s.Fits) :
    localStateCodec.decode (localStateCodec.encode s) .zero = some s := by
  have hnames : Distinct foldEqual (localStateFields.map Slot.name) := by
    rw [localStateFields_names]
    exact localNames_distinct
  have hread (t : LocalState) := channelFields_read LocalState.toChannelState LocalState.withFlat
    (r := s) (t := t) (fun _ _ => rfl) (fun _ => rfl) h.toFits
  have hcopy (t : LocalState) := channelFields_copy LocalState.toChannelState LocalState.withFlat
    (fun _ _ => rfl) (fun _ _ _ => rfl) s t
  have hchannels : channelsCodec.decode (channelsCodec.encode s.channels) [] = some s.channels :=
    mapCodec_reads (fun e he => channelState_reads (h.channelStates e he)) h.channels
  refine record_reads hnames ?_ ?_
  · rw [localStateFields, allRead_append, allRead_append, List.foldl_append, hcopy]
    refine ⟨⟨⟨field_reads (int64Codec_reads h.schemaVersion _), trivial⟩, hread _ ⟨rfl, rfl⟩⟩,
      omitted_reads (field_reads rfl) fun he => ?_, omitted_reads (field_reads hchannels) fun he => ?_, trivial⟩
    · simp only [decide_eq_true_eq] at he
      simp only [field, he]
      rfl
    · rw [List.isEmpty_iff] at he
      simp only [field, he]
      rfl
  · rw [localStateFields, List.foldl_append, List.foldl_append, hcopy]
    rfl

theorem channelFields_depth {ρ : Type} {get : ρ → ChannelState} {set : ChannelState → ρ → ρ} {r : ρ} :
    ∀ f ∈ channelFields get set, ∀ v, f.encode r = some v → v.depth ≤ 0 := by
  simp only [channelFields, channelText, channelNumber, List.forall_mem_cons, field, omitted,
    Option.ite_none_left_eq_some, Option.some.injEq]
  refine ⟨?_, ?_, ?_, ?_, ?_, ?_, ?_, ?_, ?_, ?_, ?_, ?_, ?_, ?_, by simp⟩
  all_goals
    first
    | rintro v rfl; exact le_refl _
    | rintro v ⟨-, rfl⟩; exact le_refl _

theorem localState_depth (s : LocalState) : (localStateCodec.encode s).depth ≤ 3 := by
  have hchannels : (channelsCodec.encode s.channels).depth ≤ 2 := by
    refine Nat.succ_le_succ ((depthMembers_le_iff _ 1).mpr fun m hm => ?_)
    obtain ⟨e, -, rfl⟩ := List.mem_map.mp hm
    have hchannel : (channelStateCodec.encode e.2).depth ≤ 1 := record_depth channelFields_depth
    exact hchannel
  refine record_depth fun f hf v hv => ?_
  simp only [localStateFields, List.mem_append, List.mem_cons, List.not_mem_nil, or_false] at hf
  rcases hf with (rfl | hf) | rfl | rfl
  · obtain rfl := Option.some.inj hv
    exact Nat.zero_le _
  · exact le_trans (channelFields_depth f hf v hv) (Nat.zero_le _)
  · simp only [omitted, field, Option.ite_none_left_eq_some, Option.some.injEq] at hv
    rw [← hv.2]
    exact Nat.zero_le _
  · simp only [omitted, field, Option.ite_none_left_eq_some, Option.some.injEq] at hv
    rw [← hv.2]
    exact hchannels

/-- A state as a file may hold it. -/
structure LocalState.Valid (s : LocalState) : Prop where
  fits : s.Fits
  version : s.schemaVersion = 1
  manifestSha256 : isSha256 s.manifestSha256 = true
  sequence : s.sequence ≠ 0

theorem readState_marshal {s : LocalState} (h : s.Valid) :
    readState (some (marshal localStateCodec s)) = .ok s := by
  have hr := unmarshal_marshal (le_trans (localState_depth s) (by decide)) (localState_reads h.fits)
  have hi : ¬(isSha256 s.manifestSha256 = false ∨ s.sequence = 0) := by
    simp [h.manifestSha256, h.sequence]
  simp only [readState, hr, h.version, ne_eq, not_true_eq_false, if_false, hi]

/-! ## What is read -/

theorem uint64Codec_bound {v : Json String} {old n : Nat} (h : uint64Codec.decode v old = some n) (ho : old < 2 ^ 64) :
    n < 2 ^ 64 := by
  cases v with
  | num m =>
    simp only [uint64Codec, parseUint64, Option.ite_none_right_eq_some, Option.some.injEq] at h
    rw [← h.2]
    exact h.1.2
  | null => rwa [← Option.some.inj h]
  | _ => cases h

theorem parseInt64_bound {sign digits : List Char} {n : Int} (h : parseInt64 sign digits = some n) :
    -2 ^ 63 ≤ n ∧ n < 2 ^ 63 := by
  simp only [parseInt64] at h
  split_ifs at h
  · have h := Option.some.inj h
    omega
  · have h := Option.some.inj h
    omega

theorem int64Codec_bound {v : Json String} {old n : Int} (h : int64Codec.decode v old = some n)
    (ho : -2 ^ 63 ≤ old ∧ old < 2 ^ 63) : -2 ^ 63 ≤ n ∧ n < 2 ^ 63 := by
  cases v with
  | num m =>
    simp only [int64Codec] at h
    split_ifs at h
    exact parseInt64_bound h
  | null => rwa [← Option.some.inj h]
  | _ => cases h

theorem channelFields_keep {ρ : Type} {get : ρ → ChannelState} {set : ChannelState → ρ → ρ} {P : ρ → Prop}
    (hset : ∀ a t, P t → a.Fits → P (set a t)) (hget : ∀ t, P t → (get t).Fits) :
    ∀ f ∈ channelFields get set, f.Keeps P := by
  have htext {name : String} {read : ChannelState → String} {write : String → ChannelState → ChannelState}
      (hw : ∀ a c, c.Fits → (write a c).Fits) : (channelText get set name read write).Keeps P :=
    field_keeps fun _ t _ _ ht => hset _ t ht (hw _ _ (hget t ht))
  have hnumber {name : String} {read : ChannelState → Nat} {write : Nat → ChannelState → ChannelState}
      (hr : ∀ c, c.Fits → read c < 2 ^ 64) (hw : ∀ a c, a < 2 ^ 64 → c.Fits → (write a c).Fits) :
      (channelNumber get set name read write).Keeps P :=
    field_keeps fun _ t _ hd ht =>
      hset _ t ht (hw _ _ (uint64Codec_bound hd (hr _ (hget t ht))) (hget t ht))
  have happlied : (field "appliedAt" int64Codec (fun r => (get r).appliedAt) fun a r =>
      set { get r with appliedAt := a } r).Keeps P :=
    field_keeps fun _ t _ hd ht =>
      hset _ t ht { hget t ht with appliedAt := int64Codec_bound hd (hget t ht).appliedAt }
  simp only [channelFields, List.forall_mem_cons]
  refine ⟨htext ?_, htext ?_, htext ?_, htext ?_, htext ?_, htext ?_, htext ?_,
    hnumber (fun c h => h.sequence) fun a c ha h => { h with sequence := ha },
    hnumber (fun c h => h.systemSequence) fun a c ha h => { h with systemSequence := ha },
    hnumber (fun c h => h.oprSequence) fun a c ha h => { h with oprSequence := ha },
    happlied, htext ?_, omitted_keeps (htext ?_), omitted_keeps (htext ?_), by simp⟩
  all_goals exact fun a c h => ⟨h.sequence, h.systemSequence, h.oprSequence, h.appliedAt⟩

theorem setKey_mem {α : Type} {k : String} {v : α} {m : List (String × α)} {e : String × α}
    (h : e ∈ setKey k v m) : e = (k, v) ∨ e ∈ m := by
  induction m with
  | nil => exact .inl (List.mem_singleton.mp h)
  | cons e' m ih =>
    obtain ⟨k', v'⟩ := e'
    rw [setKey] at h
    split_ifs at h
    · rcases List.mem_cons.mp h with h | h
      · exact .inl h
      · exact .inr (List.mem_cons_of_mem _ h)
    · exact List.mem_cons.mp h
    · rcases List.mem_cons.mp h with rfl | h
      · exact .inr List.mem_cons_self
      · exact (ih h).imp_right (List.mem_cons_of_mem _)

theorem setKey_ascending {α : Type} (k : String) (v : α) {m : List (String × α)}
    (h : m.Pairwise fun a b => a.1 < b.1) : (setKey k v m).Pairwise fun a b => a.1 < b.1 := by
  induction m with
  | nil => exact List.pairwise_singleton _ _
  | cons e m ih =>
    obtain ⟨k', v'⟩ := e
    obtain ⟨hlt, hm⟩ := List.pairwise_cons.mp h
    rw [setKey]
    split_ifs with heq hk
    · exact List.pairwise_cons.mpr ⟨heq ▸ hlt, hm⟩
    · refine List.pairwise_cons.mpr ⟨fun e he => ?_, h⟩
      rcases List.mem_cons.mp he with rfl | he
      · exact hk
      · exact lt_trans hk (hlt e he)
    · refine List.pairwise_cons.mpr ⟨fun e he => ?_, ih hm⟩
      rcases setKey_mem he with rfl | he
      · exact lt_of_le_of_ne (not_lt.mp hk) (Ne.symm heq)
      · exact hlt e he

theorem decodeEntries_keeps {codec : Codec ChannelState} {P : ChannelState → Prop} {zero : ChannelState}
    (hc : ∀ v a, codec.decode v zero = some a → P a) {ms : List (String × Json String)}
    {m m' : List (String × ChannelState)} (h : decodeEntries codec zero ms m = some m')
    (hp : m.Pairwise fun a b => a.1 < b.1) (hm : ∀ e ∈ m, P e.2) :
    (m'.Pairwise fun a b => a.1 < b.1) ∧ ∀ e ∈ m', P e.2 := by
  induction ms generalizing m with
  | nil =>
    obtain rfl := Option.some.inj h
    exact ⟨hp, hm⟩
  | cons e ms ih =>
    obtain ⟨k, v⟩ := e
    obtain ⟨a, ha, h⟩ := Option.bind_eq_some_iff.mp h
    refine ih h (setKey_ascending k a hp) fun e he => ?_
    rcases setKey_mem he with rfl | he
    · exact hc v a ha
    · exact hm e he

theorem localState_keeps {v : Json String} {s : LocalState} (h : localStateCodec.decode v .zero = some s) :
    s.Fits := by
  have hzero : ChannelState.zero.Fits := ⟨by decide, by decide, by decide, by decide⟩
  have hchannel : ∀ v c, channelStateCodec.decode v .zero = some c → c.Fits := fun v c hd =>
    record_keeps (channelFields_keep (fun _ _ _ h => h) fun _ h => h) hd hzero
  refine record_keeps (P := LocalState.Fits) (fun f hf => ?_) h ⟨hzero, by decide, .nil, by simp [LocalState.zero]⟩
  simp only [localStateFields, List.mem_append, List.mem_cons, List.not_mem_nil, or_false] at hf
  rcases hf with (rfl | hf) | rfl | rfl
  · exact field_keeps fun _ t _ hd ht => ⟨ht.toFits, int64Codec_bound hd ht.schemaVersion, ht.channels, ht.channelStates⟩
  · exact channelFields_keep (fun a t ht ha => ⟨ha, ht.schemaVersion, ht.channels, ht.channelStates⟩)
      (fun t ht => ht.toFits) f hf
  · exact omitted_keeps (field_keeps fun _ t _ _ ht => ⟨ht.toFits, ht.schemaVersion, ht.channels, ht.channelStates⟩)
  · refine omitted_keeps (field_keeps fun v t m hd ht => ?_)
    cases v with
    | obj ms =>
      obtain ⟨hp, hm⟩ := decodeEntries_keeps hchannel hd ht.channels ht.channelStates
      exact ⟨ht.toFits, ht.schemaVersion, hp, hm⟩
    | null =>
      obtain rfl := Option.some.inj hd
      exact ⟨ht.toFits, ht.schemaVersion, .nil, by simp⟩
    | _ => cases hd

theorem readState_valid {data : Bytes} {s : LocalState} (h : readState (some data) = .ok s) : s.Valid := by
  unfold readState at h
  simp only at h
  split at h
  · cases h
  · rename_i state hstate
    split_ifs at h with hv hi
    obtain rfl := Except.ok.inj h
    have hfits : state.Fits := by
      unfold unmarshal at hstate
      split at hstate
      · cases hstate
      · split_ifs at hstate
        exact localState_keeps hstate
    rw [not_or, Bool.not_eq_false] at hi
    exact ⟨hfits, not_not.mp hv, hi.1, hi.2⟩

end Omapkg.Client
