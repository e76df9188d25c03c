import Omapkg.Client.Url
import Omapkg.Server.Resolve
/-!
# URLs of plain paths

How the client reads a URL whose path needs no escape: the parsed path is the
path that was written, so the checks of the client are checks of its
components.
-/

namespace Omapkg.Wire

open Utf Omapkg.Server Omapkg.Client

/-! ## Plain paths -/

/-- A character that stands for itself in a path. -/
def isPlain (c : Char) : Bool := isIdChar c || c = '/'

theorem isIdChar_cases {c : Char} (h : isIdChar c = true) :
    isDigitOrLetter c = true ∨ c = '.' ∨ c = '_' ∨ c = '-' := by
  simp only [isIdChar, isAlnum, Bool.or_eq_true, Bool.and_eq_true, decide_eq_true_eq] at h
  simp only [isDigitOrLetter, isLetter, Bool.or_eq_true, Bool.and_eq_true, decide_eq_true_eq]
  tauto

theorem shouldEscape_plain {c : Char} (h : isPlain c = true) : shouldEscape .path c = false := by
  simp only [isPlain, Bool.or_eq_true, decide_eq_true_eq] at h
  rcases h with h | rfl
  · rcases isIdChar_cases h with h | rfl | rfl | rfl
    · simp [shouldEscape, h]
    · decide
    · decide
    · decide
  · decide

theorem plain_ne {c d : Char} (h : isPlain c = true) (hd : isPlain d = false) : c ≠ d := by
  rintro rfl
  rw [h] at hd
  exact absurd hd (by decide)

theorem plain_lt {c : Char} (h : isPlain c = true) : c.toNat < 128 := by
  simp only [isPlain, Bool.or_eq_true, decide_eq_true_eq] at h
  rcases h with h | rfl
  · exact isIdChar_lt h
  · decide

theorem plain_printable {c : Char} (h : isPlain c = true) : ' ' < c ∧ c ≠ '\x7f' := by
  have hne : c ≠ '\x7f' := plain_ne h (by decide)
  refine ⟨?_, hne⟩
  simp only [isPlain, isIdChar, isAlnum, Bool.or_eq_true, Bool.and_eq_true, decide_eq_true_eq] at h
  rcases h with (((((⟨h, -⟩ | ⟨h, -⟩) | ⟨h, -⟩) | rfl) | rfl) | rfl) | rfl
  · exact lt_of_lt_of_le (by decide) h
  · exact lt_of_lt_of_le (by decide) h
  · exact lt_of_lt_of_le (by decide) h
  · decide
  · decide
  · decide
  · decide

theorem unescape_plain {cs : List Char} (h : ∀ c ∈ cs, isPlain c = true) : unescape .path cs = some cs := by
  induction cs with
  | nil => rfl
  | cons c cs ih =>
    have hc : c ≠ '%' := plain_ne (h c List.mem_cons_self) (by decide)
    have ih := ih fun d hd => h d (List.mem_cons_of_mem _ hd)
    rw [unescape.eq_3 _ _ _ (by rintro a b r rfl; exact absurd rfl hc), if_neg hc, if_neg (by simp), ih]
    rfl

theorem escape_plain {cs : List Char} (h : ∀ c ∈ cs, isPlain c = true) : escape .path cs = cs := by
  have hc : ∀ c ∈ cs, (if shouldEscape .path c then ['%', upperHex (c.toNat / 16), upperHex (c.toNat % 16)]
      else [c]) = [c] := fun c hc => by rw [shouldEscape_plain (h c hc)]; rfl
  rw [escape, List.flatMap_congr hc]
  simp

theorem cut_none {c : Char} {cs : List Char} (h : c ∉ cs) : cut c cs = (cs, none) := by
  have hne : ∀ d ∈ cs, decide (d ≠ c) = true := fun d hd => decide_eq_true (by rintro rfl; exact h hd)
  rw [cut, List.takeWhile_eq_self_iff.mpr hne, List.dropWhile_eq_nil_iff.mpr hne]

/-! ## Parsing -/

/-- An origin as the deployment configures it: HTTPS and an authority that
names a host. -/
structure IsOrigin (literal : List Char → Option (List Char)) (origin : String) (authority host : List Char) :
    Prop where
  text : origin.toList = "https://".toList ++ authority
  chars : ∀ c ∈ authority, c.toNat < 128 ∧ ' ' < c ∧ c ≠ '\x7f' ∧ c ≠ '/' ∧ c ≠ '?' ∧ c ≠ '#' ∧ c ≠ '@'
  host : parseHost literal authority = some host ∧ host ≠ []

section
variable {literal : List Char → Option (List Char)} {origin : String} {authority host : List Char}

theorem https_chars : ∀ c ∈ "https://".toList, c.toNat < 128 ∧ ' ' < c := by
  have hall : "https://".toList.all (fun c => c.toNat < 128 ∧ ' ' < c) = true := by decide
  exact fun c hc => of_decide_eq_true (List.all_eq_true.mp hall c hc)

theorem getScheme_https (rest : List Char) :
    getSchemeFrom [] ("https:".toList ++ rest) = some ("https".toList, rest) := by
  have hl : "https:".toList ++ rest = 'h' :: 't' :: 't' :: 'p' :: 's' :: ':' :: rest := rfl
  rw [hl]
  rfl

/-- The URL of a plain path at an origin has that path and nothing else. -/
theorem urlParse_plain (ho : IsOrigin literal origin authority host) {p : List Char}
    (hp : ∀ c ∈ '/' :: p, isPlain c = true) :
    urlParse literal ("https://".toList ++ authority ++ '/' :: p) =
      some ⟨"https".toList, [], none, host, '/' :: p, [], [], []⟩ := by
  have hraw : "https://".toList ++ authority ++ '/' :: p =
      "https:".toList ++ '/' :: '/' :: (authority ++ '/' :: p) := by
    simp
  have hchars : ∀ c ∈ "https:".toList ++ '/' :: '/' :: (authority ++ '/' :: p),
      Client.isControl c = false ∧ c ≠ '#' ∧ c ≠ '?' := by
    intro c hc
    have hplain : ∀ d, isPlain d = true → Client.isControl d = false ∧ d ≠ '#' ∧ d ≠ '?' := by
      intro d hd
      obtain ⟨h1, h2⟩ := plain_printable hd
      refine ⟨?_, plain_ne hd (by decide), plain_ne hd (by decide)⟩
      simp only [Client.isControl, Bool.or_eq_false_iff, decide_eq_false_iff_not]
      exact ⟨not_lt_of_gt h1, h2⟩
    simp only [List.mem_append, List.mem_cons] at hc
    rcases hc with hc | rfl | rfl | hc | hc
    · have hall : "https:".toList.all (fun c => Client.isControl c = false ∧ c ≠ '#' ∧ c ≠ '?') = true := by decide
      exact of_decide_eq_true (List.all_eq_true.mp hall c hc)
    · decide
    · decide
    · obtain ⟨-, h1, h2, -, h3, h4, -⟩ := ho.chars c hc
      refine ⟨?_, h4, h3⟩
      simp only [Client.isControl, Bool.or_eq_false_iff, decide_eq_false_iff_not]
      exact ⟨not_lt_of_gt h1, h2⟩
    · exact hplain c (hp c (List.mem_cons.mpr hc))
  have hcutf := cut_none fun hm => (hchars '#' hm).2.1 rfl
  have hctl : ("https:".toList ++ '/' :: '/' :: (authority ++ '/' :: p)).any Client.isControl = false := by
    rw [List.any_eq_false]
    intro c hc
    simp [(hchars c hc).1]
  have hcutq : cut '?' ('/' :: '/' :: (authority ++ '/' :: p)) = ('/' :: '/' :: (authority ++ '/' :: p), none) :=
    cut_none fun hm => (hchars '?' (List.mem_append_right _ hm)).2.2 rfl
  have hslash : ∀ c ∈ authority, decide (c ≠ '/') = true := fun c hc => decide_eq_true (ho.chars c hc).2.2.2.1
  have htake : (authority ++ '/' :: p).takeWhile (· ≠ '/') = authority := by
    rw [List.takeWhile_append_of_pos hslash]
    simp
  have hdrop : (authority ++ '/' :: p).dropWhile (· ≠ '/') = '/' :: p := by
    rw [List.dropWhile_append_of_pos hslash]
    simp
  have hauth : parseAuthority literal authority = some (none, host) := by
    have hcut : cut '@' authority.reverse = (authority.reverse, none) :=
      cut_none fun hm => (ho.chars '@' (List.mem_reverse.mp hm)).2.2.2.2.2.2 rfl
    simp only [parseAuthority, hcut, ho.host.1, Option.map_some]
  have hstar : "https:".toList ++ '/' :: '/' :: (authority ++ '/' :: p) ≠ ['*'] := by
    intro he
    exact absurd (List.cons.inj he).1 (by decide)
  have hlower : "https".toList.map Char.toLower = "https".toList := by decide
  have hscheme : "https".toList ≠ [] := by decide
  rw [hraw]
  simp only [urlParse, hcutf, hctl, hstar, getScheme_https, Bool.false_eq_true, if_false, Option.getD_none,
    unescape, Option.bind_eq_bind, Option.bind_some, hlower, parseRest, hcutq, hscheme, false_and, htake, hdrop,
    hauth, setPath, unescape_plain hp, escape_plain hp, if_true]

end

/-! ## Components -/

/-- A path, from its components. -/
def joinSlash (ps : List (List Char)) : List Char := ps.flatMap fun p => '/' :: p

@[simp] theorem joinSlash_cons (p : List Char) (ps : List (List Char)) :
    joinSlash (p :: ps) = '/' :: (p ++ joinSlash ps) := rfl

/-- A component of a plain path. -/
def PlainComponent (p : List Char) : Prop := p ≠ [] ∧ ∀ c ∈ p, isIdChar c = true

instance : DecidablePred PlainComponent := fun p =>
  decidable_of_iff (p ≠ [] ∧ p.all isIdChar = true) (by rw [PlainComponent, List.all_eq_true])

theorem joinSlash_plain {ps : List (List Char)} (hps : ∀ p ∈ ps, PlainComponent p) :
    ∀ c ∈ joinSlash ps, isPlain c = true := by
  intro c hc
  obtain ⟨p, hp, hc⟩ := List.mem_flatMap.mp hc
  rcases List.mem_cons.mp hc with rfl | hc
  · decide
  · simp only [isPlain, (hps p hp).2 c hc, Bool.true_or]

theorem splitSlash_append {p : List Char} (hp : '/' ∉ p) (cs : List Char) :
    splitSlash (p ++ '/' :: cs) = p :: splitSlash cs := by
  induction p with
  | nil => simp [splitSlash]
  | cons c p ih =>
    obtain ⟨hc, hp⟩ := not_or.mp (fun h => hp (List.mem_cons.mpr h))
    rw [List.cons_append, splitSlash, if_neg (Ne.symm hc), ih hp]

theorem splitSlash_self {p : List Char} (hp : '/' ∉ p) : splitSlash p = [p] := by
  induction p with
  | nil => rfl
  | cons c p ih =>
    obtain ⟨hc, hp⟩ := not_or.mp (fun h => hp (List.mem_cons.mpr h))
    rw [splitSlash, if_neg (Ne.symm hc), ih hp]

theorem slash_notMem {p : List Char} (hp : PlainComponent p) : '/' ∉ p :=
  fun hm => absurd (hp.2 _ hm) (by decide)

theorem splitSlash_append_joinSlash {p : List Char} {ps : List (List Char)} (hp : '/' ∉ p)
    (hps : ∀ q ∈ ps, PlainComponent q) : splitSlash (p ++ joinSlash ps) = p :: ps := by
  induction ps generalizing p with
  | nil => rw [joinSlash, List.flatMap_nil, List.append_nil, splitSlash_self hp]
  | cons q ps ih =>
    obtain ⟨hq, hps⟩ := List.forall_mem_cons.mp hps
    rw [joinSlash_cons, splitSlash_append hp, ih (slash_notMem hq) hps]

theorem splitSlash_joinSlash {ps : List (List Char)} (hps : ∀ q ∈ ps, PlainComponent q) :
    splitSlash (joinSlash ps) = [] :: ps :=
  splitSlash_append_joinSlash (p := []) (by simp) hps

/-! ## Texts a plain path does not have -/

theorem containsText_cons (c : Char) (cs sub : List Char) :
    containsText (c :: cs) sub = (sub.isPrefixOf (c :: cs) || containsText cs sub) := by
  simp only [containsText, List.tails, List.any_cons]

theorem containsText_notMem {s : List Char} {c : Char} (sub : List Char) (h : c ∉ s) :
    containsText s (c :: sub) = false := by
  induction s with
  | nil => rfl
  | cons d s ih =>
    obtain ⟨hd, hs⟩ := not_or.mp (fun hm => h (List.mem_cons.mpr hm))
    rw [containsText_cons, ih hs, List.isPrefixOf_cons_cons, beq_false_of_ne hd]
    rfl

theorem containsText_skip {p : List Char} (hp : '/' ∉ p) (cs : List Char) :
    containsText (p ++ cs) ['/', '/'] = containsText cs ['/', '/'] := by
  induction p with
  | nil => rfl
  | cons c p ih =>
    obtain ⟨hc, hp⟩ := not_or.mp (fun hm => hp (List.mem_cons.mpr hm))
    rw [List.cons_append, containsText_cons, ih hp, List.isPrefixOf_cons_cons, beq_false_of_ne hc]
    rfl

/-- No component of a plain path is empty. -/
theorem containsText_joinSlash {ps : List (List Char)} (hps : ∀ p ∈ ps, PlainComponent p) :
    containsText (joinSlash ps) ['/', '/'] = false := by
  induction ps with
  | nil => rfl
  | cons p ps ih =>
    obtain ⟨hp, hps'⟩ := List.forall_mem_cons.mp hps
    have hslash := slash_notMem hp
    obtain ⟨c, p, rfl⟩ := List.exists_cons_of_ne_nil hp.1
    have hc : '/' ≠ c := fun he => hslash (he ▸ List.mem_cons_self)
    rw [joinSlash_cons, containsText_cons, containsText_skip hslash, ih hps', List.cons_append,
      List.isPrefixOf_cons_cons, List.isPrefixOf_cons_cons, beq_false_of_ne hc]
    rfl

theorem toLower_ne_percent {c : Char} (h : isPlain c = true) : c.toLower ≠ '%' := by
  have hall : ∀ n < 128, (Char.ofNat n).toLower = '%' → Char.ofNat n = '%' := by decide
  intro he
  have hc := hall c.toNat (plain_lt h) (by rwa [Char.ofNat_toNat])
  rw [Char.ofNat_toNat] at hc
  exact plain_ne h (by decide) hc

/-! ## The client's checks -/

theorem goBytes_ascii {s : String} (h : ∀ c ∈ s.toList, c.toNat < 128) : goBytes s = s.toList := by
  have hc : ∀ c ∈ s.toList, (String.utf8EncodeChar c).map (fun b => Char.ofNat b.toNat) = [c] := by
    intro c hmem
    have hlt := h c hmem
    have hle : c.val.toNat ≤ 127 := Nat.le_of_lt_succ hlt
    have hb : (UInt8.ofNat c.val.toNat).toNat = c.toNat := by
      rw [UInt8.toNat_ofNat']
      exact Nat.mod_eq_of_lt (Nat.lt_trans hlt (by decide))
    simp only [String.utf8EncodeChar, hle, if_true, List.map_singleton, hb, Char.ofNat_toNat]
  rw [goBytes, encode, List.map_flatMap, List.flatMap_congr hc]
  simp

section
variable {literal : List Char → Option (List Char)} {origin : String} {authority host : List Char}
  {ps : List (List Char)} {raw : String}

/-- The text of a URL with the components `ps` at an origin. -/
def IsUrlOf (origin : String) (ps : List (List Char)) (raw : String) : Prop :=
  ps ≠ [] ∧ (∀ p ∈ ps, PlainComponent p) ∧ raw.toList = origin.toList ++ joinSlash ps

theorem urlParse_of (ho : IsOrigin literal origin authority host) (hr : IsUrlOf origin ps raw) :
    urlParse literal (goBytes raw) = some ⟨"https".toList, [], none, host, joinSlash ps, [], [], []⟩ := by
  obtain ⟨hne, hps, hraw⟩ := hr
  have hplain := joinSlash_plain hps
  obtain ⟨q, ps, rfl⟩ := List.exists_cons_of_ne_nil hne
  have hascii : ∀ c ∈ raw.toList, c.toNat < 128 := by
    intro c hc
    rw [hraw, ho.text] at hc
    rcases List.mem_append.mp hc with hc | hc
    · rcases List.mem_append.mp hc with hc | hc
      · exact (https_chars c hc).1
      · exact (ho.chars c hc).1
    · exact plain_lt (hplain c hc)
  rw [goBytes_ascii hascii, hraw, ho.text]
  exact urlParse_plain ho hplain

theorem mutableURL_of (ho : IsOrigin literal origin authority host) (hr : IsUrlOf origin ps raw) :
    mutableURL literal raw = mutablePath ([] :: ps) := by
  simp only [mutableURL, urlParse_of ho hr, splitSlash_joinSlash hr.2.1]

theorem checkComponents_ok (rejectMutable : Bool) :
    checkComponents raw rejectMutable ps = .ok () ↔ ∀ p ∈ ps, p ≠ ['.'] ∧ p ≠ ['.', '.'] ∧ p ≠ "$arch".toList ∧
      (rejectMutable = true → isMovingName p = false) := by
  induction ps with
  | nil => simp [checkComponents]
  | cons p ps ih =>
    rw [checkComponents, List.forall_mem_cons, ← ih]
    split
    · simp only [reduceCtorEq, false_iff]; tauto
    · split
      · simp only [reduceCtorEq, false_iff]
        rintro ⟨⟨-, -, -, h⟩, -⟩
        simp_all
      · simp_all

theorem validateURL_of (ho : IsOrigin literal origin authority host) (hr : IsUrlOf origin ps raw)
    (allowHTTP : Bool) :
    validateURL literal raw allowHTTP = .ok () ↔ ∀ p ∈ ps, p ≠ ['.'] ∧ p ≠ ['.', '.'] ∧ isMovingName p = false := by
  have hplain := joinSlash_plain hr.2.1
  have hspace : raw.toList.any (fun c => c = '\x00' || c = '\r' || c = '\n' || c = '\t' || c = ' ') = false := by
    rw [List.any_eq_false]
    intro c hc
    have hp : ' ' < c := by
      rw [hr.2.2, ho.text] at hc
      rcases List.mem_append.mp hc with hc | hc
      · rcases List.mem_append.mp hc with hc | hc
        · exact (https_chars c hc).2
        · exact (ho.chars c hc).2.1
      · exact (plain_printable (hplain c hc)).1
    simp only [Bool.or_eq_true, decide_eq_true_eq]
    rintro ((((rfl | rfl) | rfl) | rfl) | rfl) <;> exact absurd hp (by decide)
  have hpath : joinSlash ps ≠ [] := by
    obtain ⟨q, qs, rfl⟩ := List.exists_cons_of_ne_nil hr.1
    exact List.cons_ne_nil _ _
  have hescaped : (GoUrl.escapedPath ⟨"https".toList, [], none, host, joinSlash ps, [], [], []⟩) = joinSlash ps := by
    have hstar : joinSlash ps ≠ ['*'] := fun he => absurd (hplain '*' (he ▸ List.mem_cons_self)) (by decide)
    simp only [GoUrl.escapedPath, ne_eq, not_true_eq_false, false_and, if_false, hstar, escape_plain hplain]
  have hpercent : '%' ∉ (joinSlash ps).map Char.toLower := by
    intro hm
    obtain ⟨c, hc, he⟩ := List.mem_map.mp hm
    exact toLower_ne_percent (hplain c hc) he
  have hback : (joinSlash ps).contains '\\' = false := by
    rw [List.contains_eq_any_beq, List.any_eq_false]
    intro c hc
    simpa using (plain_ne (hplain c hc) (by decide) : c ≠ '\\').symm
  have hdollar : ∀ p ∈ ps, p ≠ "$arch".toList := by
    rintro p hp rfl
    exact absurd ((hr.2.1 _ hp).2 '$' (by decide)) (by decide)
  have h2e : containsText ((joinSlash ps).map Char.toLower) "%2e".toList = false := containsText_notMem _ hpercent
  have h2f : containsText ((joinSlash ps).map Char.toLower) "%2f".toList = false := containsText_notMem _ hpercent
  have h5c : containsText ((joinSlash ps).map Char.toLower) "%5c".toList = false := containsText_notMem _ hpercent
  have hslash : containsText (joinSlash ps) "//".toList = false := containsText_joinSlash hr.2.1
  simp only [validateURL, validateURLMode, hspace, urlParse_of ho hr, ho.host.2, hescaped, hpath, hslash, hback,
    h2e, h2f, h5c, splitSlash_joinSlash hr.2.1, Bool.false_eq_true, if_false, ne_eq, not_true_eq_false, or_self,
    false_and, checkComponents_ok, List.forall_mem_cons]
  constructor
  · rintro ⟨-, h⟩ p hp
    obtain ⟨h1, h2, -, h3⟩ := h p hp
    exact ⟨h1, h2, h3 trivial⟩
  · intro h
    refine ⟨by decide, fun p hp => ?_⟩
    obtain ⟨h1, h2, h3⟩ := h p hp
    exact ⟨h1, h2, hdollar p hp, fun _ => h3⟩

end

end Omapkg.Wire
