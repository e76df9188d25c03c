import Mathlib.Logic.Equiv.Basic
import Mathlib.Logic.Function.Basic
import Omapkg.Client.StagedConfig
import Omapkg.Client.ImageLock
/-!
# The order of the packages in an image lock

The packages are taken from a map, in any order, and sorted by a key. The bytes of the
lock are those of every order just if the key tells the packages apart: a sort sees
no more of them than the key.
-/

namespace Omapkg.Client

open Utf Json Fallible

/-! ## Sorting -/

/-- `sort.Slice`: some order of the elements in which none is less than one before it, found by looking at nothing
but which are less than which. -/
structure IsSortSlice (sortSlice : (ImageLockPackage → ImageLockPackage → Bool) → List ImageLockPackage → List ImageLockPackage) :
    Prop where
  perm : ∀ less l, (sortSlice less l).Perm l
  sorted : ∀ l, (sortSlice keyLess l).Pairwise fun a b => keyLess b a = false
  blind : ∀ less (f : ImageLockPackage → ImageLockPackage) l, (∀ a b, less (f a) (f b) = less a b) →
    sortSlice less (l.map f) = (sortSlice less l).map f

/-- The elements of a map, each once. -/
def IsOrder (order : List ImageLockPackage → List ImageLockPackage) : Prop := ∀ l, (order l).Perm l

/-- The key tells the packages apart. -/
def Separated (selected : List ImageLockPackage) : Prop :=
  ∀ p ∈ selected, ∀ q ∈ selected, imageKey p = imageKey q → p = q

/-! ## Selected packages -/

section
variable {literal : List Char → Option (List Char)} {manifestUrl : String} {tx : Transaction}
  {selected selected' : List ImageLockPackage} {pkg : ImageLockPackage} {item : Object}

/-- The file name is that of the package's URL. -/
def Named (literal : List Char → Option (List Char)) (p : ImageLockPackage) : Prop :=
  ∃ parsed, urlParse literal (goBytes p.url) = some parsed ∧ p.filename = filepathBase parsed.path

/-- No two packages have one file name, and each has that of its URL. -/
structure Catalogued (literal : List Char → Option (List Char)) (selected : List ImageLockPackage) : Prop where
  filenames : (selected.map (·.filename)).Nodup
  named : ∀ p ∈ selected, Named literal p

theorem imagePackage_named (h : imagePackage literal item = .ok pkg) : Named literal pkg := by
  unfold imagePackage at h
  obtain ⟨release, -, h⟩ := bind_ok.mp h
  obtain ⟨name, -, h⟩ := bind_ok.mp h
  obtain ⟨version, -, h⟩ := bind_ok.mp h
  obtain ⟨architecture, -, h⟩ := bind_ok.mp h
  obtain ⟨-, h⟩ := guard_ok.mp h
  obtain ⟨url, -, h⟩ := bind_ok.mp h
  obtain ⟨signatureUrl, -, h⟩ := bind_ok.mp h
  obtain ⟨digest, -, h⟩ := bind_ok.mp h
  obtain ⟨signatureDigest, -, h⟩ := bind_ok.mp h
  obtain ⟨-, h⟩ := guard_ok.mp h
  obtain ⟨⟨⟩, -, h⟩ := bind_ok.mp h
  obtain ⟨⟨⟩, -, h⟩ := bind_ok.mp h
  split at h
  · cases h
  · next parsed hparsed =>
    obtain ⟨-, h⟩ := guard_ok.mp h
    obtain ⟨-, h⟩ := guard_ok.mp h
    cases h
    exact ⟨parsed, hparsed, rfl⟩

theorem selectedImagePackage_named {architecture : String} {repositories : List Repository}
    (h : selectedImagePackage literal item architecture repositories = .ok (some pkg)) : Named literal pkg := by
  unfold selectedImagePackage at h
  obtain ⟨made, hmade, h⟩ := bind_ok.mp h
  split at h
  · cases h
  · obtain ⟨found, -, h⟩ := bind_ok.mp h
    split at h
    · cases h
      obtain ⟨parsed, hparsed, hfile⟩ := imagePackage_named hmade
      exact ⟨parsed, hparsed, hfile⟩
    · split at h <;> cases h
    · cases h

theorem addPackage_catalogued (hp : Named literal pkg) (hc : Catalogued literal selected)
    (h : addPackage selected pkg = .ok selected') : Catalogued literal selected' := by
  unfold addPackage at h
  split at h
  · obtain ⟨-, h⟩ := guard_ok.mp h
    cases h
    exact hc
  · next hnone =>
    cases h
    have hnew : ∀ q ∈ selected, q.filename ≠ pkg.filename := by
      intro q hq
      simpa using List.find?_eq_none.mp hnone q hq
    constructor
    · rw [List.map_append, List.map_singleton]
      refine List.Nodup.append hc.filenames (List.nodup_singleton _) ?_
      intro name hname hpkg
      obtain ⟨q, hq, rfl⟩ := List.mem_map.mp hname
      exact hnew q hq (List.mem_singleton.mp hpkg)
    · intro q hq
      rcases List.mem_append.mp hq with hq | hq
      · exact hc.named q hq
      · rw [List.mem_singleton.mp hq]
        exact hp

theorem addEntry_catalogued (hc : Catalogued literal selected)
    (h : addEntry literal manifestUrl tx selected item = .ok selected') : Catalogued literal selected' := by
  unfold addEntry at h
  obtain ⟨allPackage, -, h⟩ := bind_ok.mp h
  obtain ⟨⟨⟩, -, h⟩ := bind_ok.mp h
  obtain ⟨⟨⟩, -, h⟩ := bind_ok.mp h
  obtain ⟨found, hfound, h⟩ := bind_ok.mp h
  split at h
  · cases h
    exact hc
  · exact addPackage_catalogued (selectedImagePackage_named hfound) hc h

theorem addEntries_catalogued {items : List Object} (hc : Catalogued literal selected)
    (h : addEntries literal manifestUrl tx selected items = .ok selected') : Catalogued literal selected' := by
  unfold addEntries at h
  induction items generalizing selected with
  | nil =>
    cases h
    exact hc
  | cons item items ih =>
    rw [List.foldlM_cons] at h
    obtain ⟨next, hnext, h⟩ := bind_ok.mp h
    exact ih (addEntry_catalogued hc hnext) h

end

section
variable {literal : List Char → Option (List Char)} {sha256 : Bytes → Hash.Digest} {client : ManifestClient}
  {unmarshalChunk : Bytes → Option ChunkObject} {env : Env} {overwrite : Bool}

theorem mapError_ok {α : Type} {f : GoError → GoError} {x : Except GoError α} {a : α} : x.mapError f = .ok a ↔ x = .ok a := by
  cases x <;> simp [Except.mapError]

theorem writeChunks_catalogued {manifestUrl : String} {tx : Transaction} {place index : Nat} {chunks : List PackageChunk}
    {out out' : Output} {selected selected' : List ImageLockPackage} {refs : List ImageLockRef} {count : Nat}
    (hc : Catalogued literal selected)
    (h : writeChunks literal sha256 client unmarshalChunk env overwrite manifestUrl tx place index chunks out selected =
      .ok (refs, out', selected', count)) : Catalogued literal selected' := by
  induction chunks generalizing place index out selected refs count with
  | nil =>
    cases h
    exact hc
  | cons chunk rest ih =>
    rw [writeChunks] at h
    obtain ⟨⟨⟩, -, h⟩ := bind_ok.mp h
    obtain ⟨data, -, h⟩ := bind_ok.mp h
    obtain ⟨-, h⟩ := guard_ok.mp h
    split at h
    · cases h
    · obtain ⟨-, h⟩ := guard_ok.mp h
      obtain ⟨written, -, h⟩ := bind_ok.mp h
      obtain ⟨next, hnext, h⟩ := bind_ok.mp h
      obtain ⟨⟨refs', out'', selected'', count'⟩, hrest, h⟩ := bind_ok.mp h
      cases h
      exact ih (addEntries_catalogued hc (mapError_ok.mp hnext)) hrest

theorem collectInputs_catalogued {r : RetainedInputs} {out : Output} {transaction system opr : ImageLockRef} {c : Collected}
    (h : collectInputs literal sha256 client unmarshalChunk env overwrite r out = .ok (transaction, system, opr, c)) :
    Catalogued literal c.selected := by
  unfold collectInputs at h
  obtain ⟨⟨t, out₁⟩, -, h⟩ := bind_ok.mp h
  obtain ⟨⟨s, out₂⟩, -, h⟩ := bind_ok.mp h
  obtain ⟨⟨o, out₃⟩, -, h⟩ := bind_ok.mp h
  obtain ⟨⟨repositories, out₄⟩, -, h⟩ := bind_ok.mp h
  obtain ⟨⟨chunks, out₅, selected, count⟩, hchunks, h⟩ := bind_ok.mp h
  obtain ⟨-, h⟩ := guard_ok.mp h
  obtain ⟨-, h⟩ := guard_ok.mp h
  cases h
  exact writeChunks_catalogued ⟨by simp, by simp⟩ hchunks

end

/-! ## Bytes -/

theorem print_injective {v w : GoValue} (h : v.print goQuote = w.print goQuote) : v = w := by
  have hid : String.ofList ∘ String.toList = id := funext fun s => String.ofList_toList
  have hv := parse_print reads_goQuote v (Nat.le_max_left v.depth w.depth) stops_nil
  have hw := parse_print reads_goQuote w (Nat.le_max_right v.depth w.depth) stops_nil
  rw [h] at hv
  rw [hv] at hw
  have hvw := (Prod.mk.inj (Option.some.inj hw)).1
  rwa [hid, map_id, map_id] at hvw

theorem packageValue_injective {literal : List Char → Option (List Char)} {p q : ImageLockPackage} (hp : Named literal p)
    (hq : Named literal q) (h : packageValue p = packageValue q) : p = q := by
  obtain ⟨parsed, hparsed, hpfile⟩ := hp
  obtain ⟨parsed', hparsed', hqfile⟩ := hq
  unfold packageValue at h
  simp only [Json.obj.injEq, List.cons.injEq, Prod.mk.injEq, true_and, and_true, Json.str.injEq, Json.bool.injEq] at h
  obtain ⟨hrelease, hname, hversion, harch, hrepo, -, hurl, hsigUrl, hsha, hsigSha, hinstall⟩ := h
  rw [← hurl, hparsed] at hparsed'
  cases hparsed'
  cases p
  cases q
  simp_all

/-- Different packages make different bytes. -/
theorem lockBytes_packages {literal : List Char → Option (List Char)} {lock lock' : ImageLock}
    (hp : ∀ p ∈ lock.packages, Named literal p) (hq : ∀ p ∈ lock'.packages, Named literal p)
    (h : canonicalMarshal (lockValue lock) = canonicalMarshal (lockValue lock')) : lock.packages = lock'.packages := by
  have hvalue := print_injective (encode_injective h)
  unfold lockValue at hvalue
  simp only [Json.obj.injEq, List.cons.injEq, Prod.mk.injEq, true_and, and_true] at hvalue
  have hslice : sliceValue (lock.packages.map packageValue) = sliceValue (lock'.packages.map packageValue) := by
    tauto
  have hmap : lock.packages.map packageValue = lock'.packages.map packageValue := by
    unfold sliceValue at hslice
    split at hslice
    · next hnil =>
      split at hslice
      · next hnil' => rw [hnil, hnil']
      · cases hslice
    · split at hslice
      · cases hslice
      · exact Json.arr.inj hslice
  have hlength : lock.packages.length = lock'.packages.length := by simpa using congrArg List.length hmap
  refine List.ext_getElem hlength fun i hi hi' => ?_
  have hget : packageValue lock.packages[i] = packageValue lock'.packages[i] := by
    have := congrArg (fun l => l[i]?) hmap
    simpa [hi, hi'] using this
  exact packageValue_injective (hp _ (List.getElem_mem hi)) (hq _ (List.getElem_mem hi')) hget

/-! ## Orders -/

section
variable {sortSlice : (ImageLockPackage → ImageLockPackage → Bool) → List ImageLockPackage → List ImageLockPackage}
  {selected : List ImageLockPackage}

theorem keyLess_total {a b : ImageLockPackage} (h : keyLess a b = false) (h' : keyLess b a = false) :
    imageKey a = imageKey b := by
  unfold keyLess at h h'
  exact le_antisymm (not_lt.mp (of_decide_eq_false h')) (not_lt.mp (of_decide_eq_false h))

/-- Where the key tells the packages apart, there is one sorted order. -/
theorem sort_unique (hsort : IsSortSlice sortSlice) (h : Separated selected) {l l' : List ImageLockPackage}
    (hl : l.Perm selected) (hl' : l'.Perm selected) : sortSlice keyLess l = sortSlice keyLess l' := by
  have hperm : (sortSlice keyLess l).Perm selected := (hsort.perm _ l).trans hl
  have hperm' : (sortSlice keyLess l').Perm selected := (hsort.perm _ l').trans hl'
  refine List.Perm.eq_of_pairwise ?_ (hsort.sorted l) (hsort.sorted l') (hperm.trans hperm'.symm)
  intro a b ha hb hba hab
  exact h a (hperm.mem_iff.mp ha) b (hperm'.mem_iff.mp hb) (keyLess_total hab hba)

/-- Two packages in each other's place. -/
def exchange (p q : ImageLockPackage) : ImageLockPackage → ImageLockPackage := Equiv.swap p q

theorem exchange_key {p q : ImageLockPackage} (h : imageKey p = imageKey q) (a : ImageLockPackage) :
    imageKey (exchange p q a) = imageKey a := by
  unfold exchange
  rw [Equiv.swap_apply_def]
  split
  · next ha => rw [ha, h]
  · split
    · next ha => rw [ha, h]
    · rfl

theorem exchange_perm {p q : ImageLockPackage} (hp : p ∈ selected) (hq : q ∈ selected) (hnodup : selected.Nodup) :
    (selected.map (exchange p q)).Perm selected := by
  have hmem : ∀ a ∈ selected, exchange p q a ∈ selected := by
    intro a ha
    unfold exchange
    rw [Equiv.swap_apply_def]
    split
    · exact hq
    · split
      · exact hp
      · exact ha
  have hmapped : (selected.map (exchange p q)).Nodup := hnodup.map (Equiv.swap p q).injective
  rw [List.perm_ext_iff_of_nodup hmapped hnodup]
  intro a
  constructor
  · intro ha
    obtain ⟨b, hb, rfl⟩ := List.mem_map.mp ha
    exact hmem b hb
  · intro ha
    refine List.mem_map.mpr ⟨exchange p q a, hmem a ha, ?_⟩
    exact (Equiv.swap p q).symm_apply_apply a

/-- Packages with one key come out in each other's place, where they went in so. -/
theorem sort_exchange (hsort : IsSortSlice sortSlice) {p q : ImageLockPackage} (hkey : imageKey p = imageKey q) :
    sortSlice keyLess (selected.map (exchange p q)) = (sortSlice keyLess selected).map (exchange p q) := by
  apply hsort.blind
  intro a b
  unfold keyLess
  rw [exchange_key hkey, exchange_key hkey]

end

/-! ## The lock of every order -/

section
variable (literal : List Char → Option (List Char)) (sha256 : Bytes → Hash.Digest) (client : ManifestClient)
  (unmarshalChunk : Bytes → Option ChunkObject) (env : Env) (overwrite : Bool) (r : RetainedInputs) (out : Output)

/-- The files of a run, for a sort and an order of the map. -/
def lockFiles (choices : Choices) : Except GoError Output :=
  (writeRetained literal sha256 client unmarshalChunk env overwrite choices r out).map (·.2)

variable {literal sha256 client unmarshalChunk env overwrite r out}

theorem lockFiles_eq {transaction system opr : ImageLockRef} {c : Collected}
    (h : collectInputs literal sha256 client unmarshalChunk env overwrite r out = .ok (transaction, system, opr, c))
    (choices : Choices) : lockFiles literal sha256 client unmarshalChunk env overwrite r out choices =
      c.out.write overwrite "release-lock.json"
        (canonicalMarshal (lockValue (imageLock sha256 choices r transaction system opr c))) := by
  unfold lockFiles writeRetained
  rw [h]
  change ((c.out.write overwrite "release-lock.json" _ >>= fun out' => Except.ok (_, out')).map (·.2)) = _
  cases c.out.write overwrite "release-lock.json" _ <;> rfl

theorem lockFiles_error {e : GoError} (h : collectInputs literal sha256 client unmarshalChunk env overwrite r out = .error e)
    (choices : Choices) : lockFiles literal sha256 client unmarshalChunk env overwrite r out choices = .error e := by
  unfold lockFiles writeRetained
  rw [h]
  rfl

/-- The lock can be written, once the other files are. -/
def LockFree (overwrite : Bool) (out : Output) : Prop := overwrite = true ∨ out.get "release-lock.json" = none

theorem write_free {out : Output} (h : LockFree overwrite out) (data : Bytes) :
    out.write overwrite "release-lock.json" data = .ok { out with written := out.written ++ [("release-lock.json", data)] } := by
  unfold Output.write
  rw [if_neg]
  rintro ⟨ho, hsome⟩
  rcases h with h | h
  · rw [h] at ho
    cases ho
  · rw [h] at hsome
    cases hsome

theorem write_taken {out : Output} (h : ¬LockFree overwrite out) (data : Bytes) :
    out.write overwrite "release-lock.json" data = .error (.errorf "refusing to replace %s" ["release-lock.json"]) := by
  unfold LockFree at h
  rw [not_or, Bool.not_eq_true, ← ne_eq, Option.ne_none_iff_isSome] at h
  unfold Output.write
  rw [if_pos h]

/-- Different orders of the sorted packages make different files. -/
theorem packages_of_files {sortSlice : (ImageLockPackage → ImageLockPackage → Bool) → List ImageLockPackage → List ImageLockPackage}
    (hsort : IsSortSlice sortSlice) {order order' : List ImageLockPackage → List ImageLockPackage} (horder : IsOrder order)
    (horder' : IsOrder order') {transaction system opr : ImageLockRef} {c : Collected}
    (hc : collectInputs literal sha256 client unmarshalChunk env overwrite r out = .ok (transaction, system, opr, c))
    (hfree : LockFree overwrite c.out)
    (h : lockFiles literal sha256 client unmarshalChunk env overwrite r out ⟨sortSlice, order⟩ =
      lockFiles literal sha256 client unmarshalChunk env overwrite r out ⟨sortSlice, order'⟩) :
    sortSlice keyLess (order c.selected) = sortSlice keyLess (order' c.selected) := by
  have hnamed : ∀ (o : List ImageLockPackage → List ImageLockPackage), IsOrder o →
      ∀ p ∈ sortSlice keyLess (o c.selected), Named literal p := by
    intro o ho p hp
    apply (collectInputs_catalogued hc).named
    exact ((hsort.perm _ _).trans (ho _)).mem_iff.mp hp
  rw [lockFiles_eq hc, lockFiles_eq hc, write_free hfree, write_free hfree] at h
  have hwritten := congrArg Output.written (Except.ok.inj h)
  have hlast := (Prod.mk.inj (List.singleton_inj.mp (List.append_cancel_left hwritten))).2
  exact lockBytes_packages (hnamed order horder) (hnamed order' horder') hlast

section
variable {sortSlice : (ImageLockPackage → ImageLockPackage → Bool) → List ImageLockPackage → List ImageLockPackage}
  (hsort : IsSortSlice sortSlice)
include hsort

theorem separated_of_deterministic (h : ∀ order order', IsOrder order → IsOrder order' →
      lockFiles literal sha256 client unmarshalChunk env overwrite r out ⟨sortSlice, order⟩ =
        lockFiles literal sha256 client unmarshalChunk env overwrite r out ⟨sortSlice, order'⟩)
    {transaction system opr : ImageLockRef} {c : Collected}
    (hc : collectInputs literal sha256 client unmarshalChunk env overwrite r out = .ok (transaction, system, opr, c))
    (hfree : LockFree overwrite c.out) : Separated c.selected := by
  intro p hp q hq hkey
  by_contra hne
  have hnodup : c.selected.Nodup := List.Nodup.of_map _ (collectInputs_catalogued hc).filenames
  -- the map that gives `p` and `q` in each other's place
  let order' : List ImageLockPackage → List ImageLockPackage := fun l =>
    if l = c.selected then l.map (exchange p q) else l
  have horder' : IsOrder order' := by
    intro l
    by_cases hl : l = c.selected
    · simp only [order', if_pos hl]
      rw [hl]
      exact exchange_perm hp hq hnodup
    · simp only [order', if_neg hl]
      exact .refl l
  have hsame := packages_of_files hsort (fun l => .refl l) horder' hc hfree (h _ _ (fun l => .refl l) horder')
  simp only [order', if_true] at hsame
  rw [sort_exchange hsort hkey] at hsame
  have hmem : p ∈ sortSlice keyLess c.selected := (hsort.perm _ _).mem_iff.mpr hp
  have hfixed := List.map_inj_left.mp ((List.map_id _).trans hsame) p hmem
  unfold exchange at hfixed
  rw [Equiv.swap_apply_left] at hfixed
  exact hne hfixed

theorem deterministic_of_separated (h : ∀ transaction system opr c,
      collectInputs literal sha256 client unmarshalChunk env overwrite r out = .ok (transaction, system, opr, c) →
        LockFree overwrite c.out → Separated c.selected)
    {order order' : List ImageLockPackage → List ImageLockPackage} (horder : IsOrder order) (horder' : IsOrder order') :
    lockFiles literal sha256 client unmarshalChunk env overwrite r out ⟨sortSlice, order⟩ =
      lockFiles literal sha256 client unmarshalChunk env overwrite r out ⟨sortSlice, order'⟩ := by
  cases hc : collectInputs literal sha256 client unmarshalChunk env overwrite r out with
  | error e => rw [lockFiles_error hc, lockFiles_error hc]
  | ok collected =>
    obtain ⟨transaction, system, opr, c⟩ := collected
    rw [lockFiles_eq hc, lockFiles_eq hc]
    by_cases hfree : LockFree overwrite c.out
    · have hsorted := sort_unique hsort (h transaction system opr c hc hfree) (horder c.selected) (horder' c.selected)
      unfold imageLock
      simp only [hsorted]
    · rw [write_taken hfree, write_taken hfree]

end

end

/-- The files of a lock are the same for every order of the map just if no two of the selected packages have the same
name, architecture, version and digest. -/
theorem image_lock_deterministic_iff
    {sortSlice : (ImageLockPackage → ImageLockPackage → Bool) → List ImageLockPackage → List ImageLockPackage}
    (hsort : IsSortSlice sortSlice) (literal : List Char → Option (List Char)) (sha256 : Bytes → Hash.Digest)
    (client : ManifestClient) (unmarshalChunk : Bytes → Option ChunkObject) (env : Env) (overwrite : Bool)
    (r : RetainedInputs) (out : Output) :
    (∀ order order', IsOrder order → IsOrder order' →
      lockFiles literal sha256 client unmarshalChunk env overwrite r out ⟨sortSlice, order⟩ =
        lockFiles literal sha256 client unmarshalChunk env overwrite r out ⟨sortSlice, order'⟩) ↔
      ∀ transaction system opr c,
        collectInputs literal sha256 client unmarshalChunk env overwrite r out = .ok (transaction, system, opr, c) →
          LockFree overwrite c.out → Separated c.selected :=
  ⟨fun h _ _ _ _ hc hfree => separated_of_deterministic hsort h hc hfree,
    fun h _ _ horder horder' => deterministic_of_separated hsort h horder horder'⟩

/-! ## Two packages with one key -/

/-- What `sort.Slice` does of a few elements. -/
def insertionSlice (less : ImageLockPackage → ImageLockPackage → Bool) (l : List ImageLockPackage) : List ImageLockPackage :=
  l.insertionSort fun a b => less b a = false

theorem insertionSlice_isSortSlice : IsSortSlice insertionSlice := by
  have hle : ∀ a b : ImageLockPackage, keyLess b a = false ↔ imageKey a ≤ imageKey b := by
    intro a b
    unfold keyLess
    rw [decide_eq_false_iff_not, not_lt]
  constructor
  · intro less l
    exact List.perm_insertionSort _ l
  · intro l
    have htotal : Std.Total fun a b : ImageLockPackage => keyLess b a = false :=
      ⟨fun a b => by rw [hle, hle]; exact le_total _ _⟩
    have htrans : IsTrans ImageLockPackage fun a b => keyLess b a = false :=
      ⟨fun a b c hab hbc => by rw [hle] at hab hbc ⊢; exact le_trans hab hbc⟩
    exact List.pairwise_insertionSort _ l
  · intro less f l hless
    unfold insertionSlice
    rw [List.map_insertionSort (fun a b => less b a = false) (fun a b => less b a = false) f l]
    intro a _ b _
    rw [hless]

namespace LockSample

def entry (name url : String) : Object :=
  [("architecture", .str "x86_64"), ("artifactSha256", .str (Edited.digestText 'a')),
    ("artifactSignatureSha256", .str (Edited.digestText 'b')), ("artifactSignatureUrl", .str (url ++ ".sig")),
    ("artifactUrl", .str url), ("name", .str name), ("releaseId", .str "r"), ("version", .str "1-1")]

/-- Two entries, of which the second has the given name and another file. -/
def entries (name : String) : List Object := [entry "a" "https://h/p/a.pkg", entry name "https://h/p/b.pkg"]

def chunkValue (name : String) : GoValue :=
  .obj [("count", .num (.ofNat 1)), ("index", .num (.ofNat 0)), ("packages", .arr ((entries name).map .obj)),
    ("schemaVersion", .num (.ofNat 1))]

def chunkBytes (name : String) : Bytes := canonicalMarshal (chunkValue name)

def digestOf (bytes : Bytes) : Hash.Digest := Edited.repeated (UInt8.ofNat bytes.length)

def unmarshal (name : String) (data : Bytes) : Option ChunkObject :=
  if data = chunkBytes name then some ⟨1, 0, 1, entries name⟩ else none

def env (name : String) : Env :=
  { Edited.sampleEnv with
    get := fun _ url => .ok ⟨200, 0, .ok (if url = "https://h/c" then chunkBytes name else [1])⟩ }

def manifest (url : String) : RawManifest := ⟨[], ⟨[2], [2], (digestOf [2]).hex⟩, [3], url⟩

def repository (name : String) : Repository :=
  ⟨name, "x86_64", (digestOf [1]).hex, "https://h/p/core.db", "https://h/p/core.db.sig", "https://h/p"⟩

def ref (url : String) : ManifestRef := ⟨url, (digestOf [2]).hex, url ++ ".sig", "stable", 1, "", ""⟩

def transaction (repositories : List Repository) (chunks : List PackageChunk) (packageCount : Int) : Transaction :=
  { kind := "resolved-transaction", lane := "transaction", channel := "stable", releaseId := "r", architecture := "x86_64"
    architectures := ["x86_64"], identity := ⟨"1.0.0", "opr-1"⟩, parent := ⟨"", 0⟩, createdAt := 1, expiresAt := 9000
    sequence := 1, repositories := repositories, compatibility := ⟨"", [], "", ""⟩, recovery := ⟨"", none, false, "", []⟩
    systemRef := ref "https://h/s", oprRef := ref "https://h/o", rollbackRef := none, packageChunks := chunks
    packageCount := packageCount, digest := (digestOf [2]).hex, raw := [2] }

def inputs (name : String) : RetainedInputs :=
  ⟨"https://h/t", manifest "https://h/t.sig", manifest "https://h/s.sig", manifest "https://h/o.sig",
    transaction [repository "core"] [⟨"https://h/c", (digestOf (chunkBytes name)).hex, 1, 0, 1, 2⟩] 2⟩

def package (name url : String) (file : String) : ImageLockPackage :=
  ⟨"r", name, "1-1", "x86_64", "core", file.toList, url, url ++ ".sig", Edited.digestText 'a', Edited.digestText 'b', true⟩

def packages (name : String) : List ImageLockPackage :=
  [package "a" "https://h/p/a.pkg" "a.pkg", package name "https://h/p/b.pkg" "b.pkg"]

/-- The run up to the lock, in an empty directory. -/
def collected (name : String) : Except GoError (ImageLockRef × ImageLockRef × ImageLockRef × Collected) :=
  collectInputs Edited.noLiteral digestOf Edited.sampleClient (unmarshal name) (env name) false (inputs name) ⟨[], []⟩

theorem collected_selected : (collected "a").toOption.map (fun x => (x.2.2.2.selected, x.2.2.2.out.get "release-lock.json")) =
      some (packages "a", none) ∧
    (collected "b").toOption.map (fun x => (x.2.2.2.selected, x.2.2.2.out.get "release-lock.json")) =
      some (packages "b", none) := by
  decide +kernel

theorem collected_ok {name : String} (h : (collected name).toOption.map
      (fun x => (x.2.2.2.selected, x.2.2.2.out.get "release-lock.json")) = some (packages name, none)) :
    ∃ transaction system opr c, collected name = .ok (transaction, system, opr, c) ∧ c.selected = packages name ∧
      c.out.get "release-lock.json" = none := by
  cases hc : collected name with
  | error e =>
    rw [hc] at h
    cases h
  | ok x =>
    obtain ⟨transaction, system, opr, c⟩ := x
    rw [hc] at h
    have hboth := Prod.mk.inj (Option.some.inj h)
    exact ⟨transaction, system, opr, c, rfl, hboth.1, hboth.2⟩

end LockSample

open LockSample in
theorem image_lock_deterministic_names :
    lockFiles Edited.noLiteral digestOf Edited.sampleClient (LockSample.unmarshal "b") (env "b") false (inputs "b") ⟨[], []⟩
        ⟨insertionSlice, id⟩ =
      lockFiles Edited.noLiteral digestOf Edited.sampleClient (LockSample.unmarshal "b") (env "b") false (inputs "b") ⟨[], []⟩
        ⟨insertionSlice, List.reverse⟩ := by
  refine (image_lock_deterministic_iff insertionSlice_isSortSlice _ _ _ _ _ _ _ _).mpr ?_ id List.reverse
    (fun l => List.Perm.refl l) fun l => List.reverse_perm l
  intro transaction system opr c hc _
  obtain ⟨transaction', system', opr', c', hc', hselected, -⟩ := collected_ok collected_selected.2
  have heq : c = c' := by
    have h := (Except.ok.inj (hc.symm.trans hc'))
    exact (Prod.mk.inj (Prod.mk.inj (Prod.mk.inj h).2).2).2
  rw [heq, hselected]
  unfold Separated
  decide

open LockSample in
/-- Two files of one package: which comes first in the lock is up to the map. -/
theorem one_key_two_packages :
    ¬∀ (sortSlice : (ImageLockPackage → ImageLockPackage → Bool) → List ImageLockPackage → List ImageLockPackage),
      IsSortSlice sortSlice → ∀ (literal : List Char → Option (List Char)) (sha256 : Bytes → Hash.Digest)
        (client : ManifestClient) (unmarshalChunk : Bytes → Option ChunkObject) (env : Env) (overwrite : Bool)
        (r : RetainedInputs) (out : Output) (order order' : List ImageLockPackage → List ImageLockPackage),
          IsOrder order → IsOrder order' →
            lockFiles literal sha256 client unmarshalChunk env overwrite r out ⟨sortSlice, order⟩ =
              lockFiles literal sha256 client unmarshalChunk env overwrite r out ⟨sortSlice, order'⟩ := by
  intro h
  obtain ⟨transaction, system, opr, c, hc, hselected, hfree⟩ := collected_ok collected_selected.1
  have hseparated := separated_of_deterministic insertionSlice_isSortSlice
    (h insertionSlice insertionSlice_isSortSlice Edited.noLiteral digestOf Edited.sampleClient (LockSample.unmarshal "a")
      (env "a") false (inputs "a") ⟨[], []⟩) hc (.inr hfree)
  rw [hselected] at hseparated
  revert hseparated
  unfold Separated
  decide

end Omapkg.Client
