import Omapkg.Server.Resolve
import Omapkg.Wire.Urls
/-!
# Manifest URLs, from the server to the client

The client takes a manifest URL of the server for an immutable one exactly
when its channel is not the quarantine and its release id does not look like a
file, and takes every pointer of a channel for a mutable one.
-/

namespace Omapkg.Wire

open Utf Json Omapkg.Server Omapkg.Client

/-! ## Release ids -/

/-- The release ids the server gives: those it checks of a lane, and those it
makes for a transaction from the ids of two lanes. -/
inductive AdmittedId : ReleaseKind → JsString → Prop where
  | lane {kind : ReleaseKind} {releaseId : JsString} :
      kind ≠ .resolvedTransaction → assertReleaseId kind releaseId = .ok releaseId → AdmittedId kind releaseId
  | transaction (i : BuildInput) :
      assertReleaseId .system i.system.releaseId = .ok i.system.releaseId →
      assertReleaseId .opr i.opr.releaseId = .ok i.opr.releaseId → AdmittedId .resolvedTransaction i.releaseId

/-- How a release id starts: a version's digit, or the prefix of its kind. -/
def startsAsId : List Char → Bool
  | 'o' :: 'p' :: 'r' :: '-' :: _ => true
  | 't' :: 'x' :: 'n' :: '-' :: _ => true
  | c :: _ => c.isDigit
  | [] => false

theorem versionNumber_head {cs : List Char} {r : List Char × List Char} (h : versionNumber cs = some r) :
    ∃ c ds, cs = c :: ds ∧ c.isDigit = true := by
  rcases cs with _ | ⟨c, ds⟩
  · simp [versionNumber, digits] at h
  · refine ⟨c, ds, rfl, ?_⟩
    by_contra hc
    have hd : digits (c :: ds) = [] := by simp [digits, hc]
    simp [versionNumber, hd] at h

theorem startsAsId_digit {c : Char} (h : c.isDigit = true) (cs : List Char) : startsAsId (c :: cs) = true := by
  unfold startsAsId
  split <;> simp_all

theorem ascii_append (s t : JsString) : ascii (s ++ t) = ascii s ++ ascii t := List.map_append

theorem isIdChar_digit {c : Char} (h : c.isDigit = true) : isIdChar c = true := by
  simp only [Char.isDigit, Bool.and_eq_true, decide_eq_true_eq] at h
  simp only [isIdChar, isAlnum, Bool.or_eq_true, Bool.and_eq_true, decide_eq_true_eq]
  exact .inl (.inl (.inl (.inr h)))

theorem take_prefix {n : Nat} (h : 4 ≤ n) (t : JsString) :
    (units "txn-" ++ t).take n = units "txn-" ++ t.take (n - 4) := by
  have hl : (units "txn-").length = 4 := by decide
  rw [List.take_append, hl, List.take_of_length_le (by omega)]

/-- The characters of an id, whatever part of it is taken. -/
def IdChars (s : JsString) : Prop := ∀ c ∈ ascii s, isIdChar c = true

instance : DecidablePred IdChars := fun s => List.decidableBAll _ (ascii s)

theorem idChars_take {s : JsString} (h : IdChars s) (n : Nat) : IdChars (s.take n) := by
  intro c hc
  obtain ⟨u, hu, rfl⟩ := List.mem_map.mp hc
  exact h _ (List.mem_map_of_mem (List.mem_of_mem_take hu))

theorem idChars_append {s t : JsString} (hs : IdChars s) (ht : IdChars t) : IdChars (s ++ t) := by
  intro c hc
  rw [ascii_append, List.mem_append] at hc
  exact hc.elim (hs c) (ht c)

theorem idChars_repr (n : Nat) : IdChars (units (Nat.repr n)) := by
  have hd : ∀ c ∈ (Nat.repr n).toList, c.isDigit = true := by
    rw [Nat.repr, String.toList_ofList]
    exact toDigits_isDigit n
  have hlt : ∀ c ∈ (Nat.repr n).toList, c.toNat < 0x10000 := by
    intro c hc
    have := isIdChar_lt (isIdChar_digit (hd c hc))
    omega
  intro c hc
  rw [ascii_units hlt] at hc
  exact isIdChar_digit (hd c hc)

/-- A transaction's id starts with `txn-` and has the characters of the ids it
is made of. -/
theorem transactionId (i : BuildInput) (hs : IdChars i.system.releaseId) (ho : IdChars i.opr.releaseId) :
    ∃ tail, i.releaseId = units "txn-" ++ tail ∧ IdChars tail := by
  have hdash : IdChars (units "-") := by decide
  have hmark : IdChars (units "-s") := by decide
  have hpair : IdChars (i.system.releaseId ++ units "-" ++ i.opr.releaseId) :=
    idChars_append (idChars_append hs hdash) ho
  have hbase : baseReleaseId i.system i.opr =
      units "txn-" ++ (i.system.releaseId ++ units "-" ++ i.opr.releaseId).take 108 := by
    rw [baseReleaseId, List.append_assoc, List.append_assoc, take_prefix (by decide), ← List.append_assoc]
  rw [BuildInput.releaseId, hbase]
  split
  · rw [List.append_assoc, List.append_assoc, take_prefix (by decide)]
    refine ⟨_, rfl, idChars_take ?_ _⟩
    exact idChars_append (idChars_take hpair _) (idChars_append hmark (idChars_repr _))
  · exact ⟨_, rfl, idChars_take hpair _⟩

theorem laneId_plain {kind : ReleaseKind} {releaseId : JsString} (hk : kind ≠ .resolvedTransaction)
    (h : assertReleaseId kind releaseId = .ok releaseId) :
    PlainComponent (ascii releaseId) ∧ startsAsId (ascii releaseId) = true := by
  obtain ⟨hword, hsystem, hopr⟩ := assertReleaseId_ok h
  have hne : ascii releaseId ≠ [] := by
    intro hn
    simp [hn, isIdWord] at hword
  refine ⟨⟨hne, isIdWord_isIdChar hword⟩, ?_⟩
  cases kind with
  | system =>
    obtain ⟨v, hv⟩ := hsystem rfl
    obtain ⟨r, hr, -⟩ := Option.bind_eq_some_iff.mp hv
    obtain ⟨c, ds, hc, hd⟩ := versionNumber_head hr
    rw [hc]
    exact startsAsId_digit hd ds
  | opr =>
    have ho := hopr rfl
    unfold isOprId at ho
    split at ho
    · next cs hcs => rw [hcs]; rfl
    · exact absurd ho (by decide)
  | resolvedTransaction => exact absurd rfl hk

theorem admittedId_plain {kind : ReleaseKind} {releaseId : JsString} (h : AdmittedId kind releaseId) :
    PlainComponent (ascii releaseId) ∧ startsAsId (ascii releaseId) = true := by
  cases h with
  | lane hk h => exact laneId_plain hk h
  | transaction i hs ho =>
    have hs := (laneId_plain (by decide) hs).1.2
    have ho := (laneId_plain (by decide) ho).1.2
    obtain ⟨tail, ht, hchars⟩ := transactionId i hs ho
    have hprefix : ascii (units "txn-") = ['t', 'x', 'n', '-'] := by decide
    have hmark : ∀ c ∈ ['t', 'x', 'n', '-'], isIdChar c = true := List.all_eq_true.mp (by decide)
    rw [ht, ascii_append, hprefix]
    refine ⟨⟨by simp, fun c hc => ?_⟩, rfl⟩
    rcases List.mem_append.mp hc with hc | hc
    · exact hmark c hc
    · exact hchars c hc

/-- No name of a lane, a channel or a moving path, and no dot segment, looks
like a release id. -/
theorem startsAsId_names {id : List Char} (h : startsAsId id = true) :
    isLaneName id = false ∧ isReleaseChannel id = false ∧ isMovingName id = false ∧
      id ≠ ['.'] ∧ id ≠ ['.', '.'] ∧ id ≠ "manifest.json".toList := by
  have hnot : ∀ names : List (List Char), (∀ name ∈ names, startsAsId name = false) → names.contains id = false := by
    intro names hn
    rw [List.contains_eq_any_beq, List.any_eq_false]
    intro name hm he
    exact absurd (hn name hm) (by rw [← eq_of_beq he, h]; decide)
  exact ⟨hnot _ (by decide), hnot _ (by decide), hnot _ (by decide), fun he => absurd h (he ▸ by decide),
    fun he => absurd h (he ▸ by decide), fun he => absurd h (he ▸ by decide)⟩

/-! ## The classification -/

/-- A channel's path: that of a manifest, or that of a pointer where no id
follows the channel. -/
def channelPath (kind : ReleaseKind) (channel : Channel) (leaf : List (List Char)) : List (List Char) :=
  "repo".toList :: kind.publicSegment.toList :: channel.text.toList :: leaf

theorem publicSegment_names (kind : ReleaseKind) :
    isLaneName kind.publicSegment.toList = true ∧ isReleaseChannel kind.publicSegment.toList = false ∧
      isMovingName kind.publicSegment.toList = false := by
  cases kind <;> decide

theorem channel_names (channel : Channel) :
    isLaneName channel.text.toList = false ∧ isLaneChannel channel.text.toList = true ∧
      isMovingName channel.text.toList = decide (channel = .quarantine) := by
  cases channel <;> decide

theorem mutablePath_manifest (kind : ReleaseKind) (channel : Channel) {id last : List Char}
    (hid : startsAsId id = true) (hlast : last = "manifest.json".toList ∨ last = "manifest.json.sig".toList) :
    mutablePath ([] :: channelPath kind channel [id, last]) =
      (".json".toList.isSuffixOf id || decide (channel = .quarantine)) := by
  obtain ⟨hs1, hs2, hs3⟩ := publicSegment_names kind
  obtain ⟨hc1, hc2, hc3⟩ := channel_names channel
  obtain ⟨hi1, hi2, hi3, -, -, hi4⟩ := startsAsId_names hid
  have hl : isLaneName last = false ∧ isReleaseChannel last = false ∧ isMovingName last = false := by
    rcases hlast with rfl | rfl <;> decide
  have hr : isLaneName "repo".toList = false ∧ isReleaseChannel "repo".toList = false ∧
      isMovingName "repo".toList = false := by
    decide
  have he : isLaneName [] = false ∧ isReleaseChannel [] = false ∧ isMovingName [] = false := by decide
  simp only [mutablePath, channelPath, hasPointer, hasStrayChannel, List.any_cons, List.any_nil, hs1, hs2, hs3, hc1,
    hc2, hc3, hi1, hi2, hi3, hi4, hl, hr, he, Bool.false_and, Bool.true_and, Bool.false_or, Bool.or_false,
    decide_false, Option.map_some, Option.getD_some, Bool.true_eq_false, Bool.and_false]

theorem mutablePath_pointer (kind : ReleaseKind) (channel : Channel) {leaf : List (List Char)}
    (h : leaf.length ≤ 1) : mutablePath ([] :: channelPath kind channel leaf) = true := by
  obtain ⟨hs1, -, -⟩ := publicSegment_names kind
  obtain ⟨-, hc2, -⟩ := channel_names channel
  match leaf, h with
  | [], _ => simp [mutablePath, channelPath, hasPointer, hs1, hc2]
  | [last], _ => simp [mutablePath, channelPath, hasPointer, hs1, hc2]

/-! ## Manifests and pointers -/

section
variable {literal : List Char → Option (List Char)} {origin : String} {authority host : List Char}

/-- The client takes a URL for an immutable reference. -/
def Immutable (literal : List Char → Option (List Char)) (allowHTTP : Bool) (url : JsString) : Prop :=
  mutableURL literal (toText url) = false ∧ validateURL literal (toText url) allowHTTP = .ok ()

theorem origin_ascii (ho : IsOrigin literal origin authority host) : ∀ c ∈ origin.toList, c.toNat < 128 := by
  intro c hc
  rw [ho.text] at hc
  exact (List.mem_append.mp hc).elim (fun hc => (https_chars c hc).1) fun hc => (ho.chars c hc).1

theorem stripSlash_origin (ho : IsOrigin literal origin authority host) :
    stripSlash (units origin) = units origin := by
  have hne : authority ≠ [] := by
    rintro rfl
    have hp : parseHost literal [] = some [] := rfl
    exact ho.host.2 (Option.some.inj (ho.host.1.symm.trans hp))
  have hascii : ascii (units origin) = origin.toList := ascii_units fun c hc => by
    have := origin_ascii ho c hc
    omega
  have hlast : (units origin).getLast? ≠ some 0x2F := by
    intro hl
    have hm : (ascii (units origin)).getLast? = some '/' := by rw [ascii, List.getLast?_map, hl]; rfl
    rw [hascii, ho.text, List.getLast?_append_of_ne_nil _ hne] at hm
    exact (ho.chars '/' (List.mem_of_getLast? hm)).2.2.2.1 rfl
  rw [stripSlash, if_neg hlast]

/-- The text of a manifest's URL, with what follows it. -/
theorem manifestUrl_text (ho : IsOrigin literal origin authority host) (kind : ReleaseKind) (channel : Channel)
    {releaseId : JsString} (hid : PlainComponent (ascii releaseId)) {tail : String}
    (ht : tail = "" ∨ tail = ".sig") :
    IsUrlOf origin (channelPath kind channel [ascii releaseId, "manifest.json".toList ++ tail.toList])
      (toText (plainManifestUrl (units origin) kind channel releaseId ++ units tail)) := by
  have hascii := isAscii_of_id hid.2
  have hurl : plainManifestUrl (units origin) kind channel releaseId ++ units tail =
      units (origin ++ ("/repo/" ++ kind.publicSegment ++ "/" ++ channel.text ++ "/") ++ toText releaseId ++
        "/manifest.json" ++ tail) := by
    simp only [plainManifestUrl, stripSlash_origin ho, units_append, units_toText hascii, List.append_assoc]
  have hid' : (toText releaseId).toList = ascii releaseId := toText_ascii hascii
  have hrepo : PlainComponent "repo".toList := by decide
  have hsegment : PlainComponent kind.publicSegment.toList := by cases kind <;> decide
  have hchannel : PlainComponent channel.text.toList := by cases channel <;> decide
  have hfile : PlainComponent ("manifest.json".toList ++ tail.toList) := by rcases ht with rfl | rfl <;> decide
  refine ⟨List.cons_ne_nil _ _, ?_, ?_⟩
  · simp only [channelPath, List.forall_mem_cons]
    exact ⟨hrepo, hsegment, hchannel, hid, hfile, by simp⟩
  · rw [hurl, toText_units]
    simp [channelPath, joinSlash, hid']

theorem immutable_iff (ho : IsOrigin literal origin authority host) {kind : ReleaseKind} (channel : Channel)
    {releaseId : JsString} (hid : AdmittedId kind releaseId) {tail : String} (ht : tail = "" ∨ tail = ".sig")
    (allowHTTP : Bool) :
    Immutable literal allowHTTP (plainManifestUrl (units origin) kind channel releaseId ++ units tail) ↔
      channel ≠ .quarantine ∧ ".json".toList.isSuffixOf (ascii releaseId) = false := by
  obtain ⟨hplain, hstart⟩ := admittedId_plain hid
  have hurl := manifestUrl_text ho kind channel hplain ht
  have hlast : "manifest.json".toList ++ tail.toList = "manifest.json".toList ∨
      "manifest.json".toList ++ tail.toList = "manifest.json.sig".toList := by
    rcases ht with rfl | rfl
    · exact .inl rfl
    · exact .inr rfl
  obtain ⟨-, -, hi3, hi4, hi5, -⟩ := startsAsId_names hstart
  have hvalid : channel ≠ .quarantine → validateURL literal
      (toText (plainManifestUrl (units origin) kind channel releaseId ++ units tail)) allowHTTP = .ok () := by
    intro hc
    have hrepo : "repo".toList ≠ ['.'] ∧ "repo".toList ≠ ['.', '.'] ∧ isMovingName "repo".toList = false := by decide
    have hsegment : kind.publicSegment.toList ≠ ['.'] ∧ kind.publicSegment.toList ≠ ['.', '.'] ∧
        isMovingName kind.publicSegment.toList = false := by
      cases kind <;> decide
    have hchannel : channel.text.toList ≠ ['.'] ∧ channel.text.toList ≠ ['.', '.'] ∧
        isMovingName channel.text.toList = false := by
      revert hc
      cases channel <;> decide
    have hfile : "manifest.json".toList ++ tail.toList ≠ ['.'] ∧ "manifest.json".toList ++ tail.toList ≠ ['.', '.'] ∧
        isMovingName ("manifest.json".toList ++ tail.toList) = false := by
      rcases hlast with h | h <;> rw [h] <;> decide
    rw [validateURL_of ho hurl]
    simp only [channelPath, List.forall_mem_cons]
    exact ⟨hrepo, hsegment, hchannel, ⟨hi4, hi5, hi3⟩, hfile, by simp⟩
  rw [Immutable, mutableURL_of ho hurl, mutablePath_manifest kind channel hstart hlast, Bool.or_eq_false_iff,
    decide_eq_false_iff_not]
  constructor
  · rintro ⟨⟨h1, h2⟩, -⟩
    exact ⟨h2, h1⟩
  · rintro ⟨h1, h2⟩
    exact ⟨⟨h2, h1⟩, hvalid h1⟩

/-- A path that moves: it has a channel and no release id, or is the current
one. -/
def IsPointer (ps : List (List Char)) : Prop :=
  (∃ kind channel leaf, ps = channelPath kind channel leaf ∧ leaf.length ≤ 1) ∨ "current".toList ∈ ps

theorem mutableURL_pointer (ho : IsOrigin literal origin authority host) {ps : List (List Char)} {raw : String}
    (hr : IsUrlOf origin ps raw) (hp : IsPointer ps) : mutableURL literal raw = true := by
  rw [mutableURL_of ho hr]
  rcases hp with ⟨kind, channel, leaf, rfl, hl⟩ | hc
  · exact mutablePath_pointer kind channel hl
  · have hmoving : ([] :: ps).any isMovingName = true :=
      List.any_eq_true.mpr ⟨_, List.mem_cons_of_mem _ hc, by decide⟩
    simp only [mutablePath, hmoving, Bool.or_true, Bool.true_or]

/-- The client parts a release's URLs from the pointers as the server does. -/
def Split (literal : List Char → Option (List Char)) (origin : String) (allowHTTP : Bool) (kind : ReleaseKind)
    (channel : Channel) (releaseId : JsString) : Prop :=
  (∃ url signatureUrl, publicManifestUrl (units origin) kind channel releaseId = some url ∧
    publicManifestSignatureUrl (units origin) kind channel releaseId = some signatureUrl ∧
    Immutable literal allowHTTP url ∧ Immutable literal allowHTTP signatureUrl) ∧
  ∀ ps raw, IsUrlOf origin ps raw → IsPointer ps → mutableURL literal raw = true

/-- Every release outside the quarantine whose id does not end as a JSON file
is parted from the pointers, and no other release. -/
theorem release_split_iff (ho : IsOrigin literal origin authority host) {kind : ReleaseKind} {channel : Channel}
    {releaseId : JsString} (hid : AdmittedId kind releaseId) (allowHTTP : Bool) :
    Split literal origin allowHTTP kind channel releaseId ↔
      channel ≠ .quarantine ∧ ".json".toList.isSuffixOf (ascii releaseId) = false := by
  have hchars := (admittedId_plain hid).1.2
  have hbare := immutable_iff ho channel hid (.inl rfl) allowHTTP
  have hsigned := immutable_iff ho channel hid (.inr rfl) allowHTTP
  have hnone : units "" = [] := rfl
  rw [hnone, List.append_nil] at hbare
  simp only [Split, publicManifestUrl_id hchars, publicManifestSignatureUrl_id hchars, Option.some.injEq]
  constructor
  · rintro ⟨⟨_, _, rfl, -, h, -⟩, -⟩
    exact hbare.mp h
  · intro h
    exact ⟨⟨_, _, rfl, rfl, hbare.mpr h, hsigned.mpr h⟩, fun ps raw => mutableURL_pointer ho⟩

end

/-! ## Releases at an origin -/

theorem example_origin :
    IsOrigin (fun _ => none) "https://omapkg.example" "omapkg.example".toList "omapkg.example".toList where
  text := by decide
  chars c hc := by
    have hall : "omapkg.example".toList.all (fun c => c.toNat < 128 ∧ ' ' < c ∧ c ≠ '\x7f' ∧ c ≠ '/' ∧ c ≠ '?' ∧
      c ≠ '#' ∧ c ≠ '@') = true := by decide
    exact of_decide_eq_true (List.all_eq_true.mp hall c hc)
  host := by decide

theorem stable_release_split :
    Split (fun _ => none) "https://omapkg.example" false .system .stable (units "4.0.3-rc1") :=
  (release_split_iff example_origin (.lane (by decide) (by decide)) false).mpr (by decide)

/-- The server quarantines an OPR release under a URL the client refuses. -/
theorem quarantine_not_split :
    ¬∀ (literal : List Char → Option (List Char)) (origin : String) (authority host : List Char),
      IsOrigin literal origin authority host → ∀ (kind : ReleaseKind) (channel : Channel) (releaseId : JsString),
        channel ∈ kind.channels → AdmittedId kind releaseId → ∀ allowHTTP : Bool,
          Split literal origin allowHTTP kind channel releaseId := by
  intro h
  have hid : AdmittedId .opr (units "opr-20260910-1") := .lane (by decide) (by decide)
  obtain ⟨⟨url, -, hurl, -, hi, -⟩, -⟩ :=
    h _ _ _ _ example_origin .opr .quarantine (units "opr-20260910-1") (by decide) hid false
  rw [publicManifestUrl_id (admittedId_plain hid).1.2] at hurl
  obtain rfl := Option.some.inj hurl
  have hbare := immutable_iff example_origin .quarantine hid (.inl rfl) false
  have hnone : units "" = [] := rfl
  rw [hnone, List.append_nil] at hbare
  exact (hbare.mp hi).1 rfl

end Omapkg.Wire
