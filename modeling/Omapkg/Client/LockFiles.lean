import Omapkg.Client.LockOrder
/-!
# The files of an image lock

Each reference of a lock has the digest of the bytes at its path, unless a file was
written over it: the file of a repository's database is named after the repository,
with `_` and `-` alike.
-/

namespace Omapkg.Client

open Utf Json Fallible

/-! ## What a lock says -/

/-- The files of a reference, with their digests. -/
def ImageLockRef.files (ref : ImageLockRef) : List (String × String) :=
  [(ref.path, ref.sha256), (ref.signature, ref.signatureSha256)]

def ImageLockRepository.files (r : ImageLockRepository) : List (String × String) :=
  [(r.path, r.sha256), (r.signature, r.signatureSha256)]

def ImageLock.files (lock : ImageLock) : List (String × String) :=
  lock.transaction.files ++ lock.systemManifest.files ++ lock.oprManifest.files ++
    lock.repositories.flatMap ImageLockRepository.files ++ lock.packageChunks.map fun ref => (ref.path, ref.sha256)

/-- Every reference has the digest of what is stored at its path, and no file was written twice. -/
structure Faithful (sha256 : Bytes → Hash.Digest) (lock : ImageLock) (out : Output) : Prop where
  stored : ∀ f ∈ lock.files, (out.get f.1).map (sha256Hex sha256) = some f.2
  once : (out.written.map Prod.fst).Nodup

/-! ## Accepted transactions -/

/-- What is checked of a transaction before anything is written. -/
structure Accepted (literal : List Char → Option (List Char)) (sha256 : Bytes → Hash.Digest) (client : ManifestClient)
    (r : RetainedInputs) : Prop where
  root : r.root.document.digest = sha256Hex sha256 r.root.document.canonical
  system : r.system.document.digest = sha256Hex sha256 r.system.document.canonical
  opr : r.opr.document.digest = sha256Hex sha256 r.opr.document.canonical
  urls : validateTransactionURL literal client r.manifestUrl r.tx = .ok ()
  chunks : r.tx.packageChunks.all PackageChunk.valid = true
  names : (r.tx.repositories.map Repository.name).Nodup

section
variable {literal : List Char → Option (List Char)} {sha256 : Bytes → Hash.Digest} {client : ManifestClient}

theorem fetchSignedAt_digest {env : Env} {place limit : Nat} {documentUrl expected : String} {raw : RawManifest}
    (h : fetchSignedAt literal sha256 client env place documentUrl expected limit = .ok raw) :
    raw.document.digest = sha256Hex sha256 raw.document.canonical := by
  unfold fetchSignedAt at h
  obtain ⟨-, h⟩ := guard_ok.mp h
  obtain ⟨⟨⟩, -, h⟩ := bind_ok.mp h
  obtain ⟨data, -, h⟩ := bind_ok.mp h
  obtain ⟨⟨canonical, object⟩, -, h⟩ := bind_ok.mp h
  obtain ⟨-, h⟩ := guard_ok.mp h
  obtain ⟨info, -, h⟩ := bind_ok.mp h
  obtain ⟨signatureUrl, -, h⟩ := bind_ok.mp h
  obtain ⟨signature, -, h⟩ := bind_ok.mp h
  obtain ⟨-, h⟩ := guard_ok.mp h
  obtain ⟨⟨⟩, -, h⟩ := bind_ok.mp h
  cases h
  rfl

theorem fetchReference_digest {env : Env} {place : Nat} {ref : ManifestRef} {kind : String} {raw : RawManifest}
    (h : fetchReference literal sha256 client env place ref kind = .ok raw) :
    raw.document.digest = sha256Hex sha256 raw.document.canonical := by
  unfold fetchReference at h
  obtain ⟨-, h⟩ := guard_ok.mp h
  obtain ⟨doc, hdoc, h⟩ := bind_ok.mp h
  obtain ⟨-, h⟩ := guard_ok.mp h
  obtain ⟨-, h⟩ := guard_ok.mp h
  obtain ⟨⟨⟩, -, h⟩ := bind_ok.mp h
  obtain ⟨⟨⟩, -, h⟩ := bind_ok.mp h
  obtain ⟨-, h⟩ := guard_ok.mp h
  cases h
  exact fetchSignedAt_digest (mapError_ok.mp hdoc)

theorem parseRepositories_names {seen : List String} {values : List GoValue} {repositories : List Repository}
    (h : parseRepositories seen values = .ok repositories) :
    (repositories.map Repository.name).Nodup ∧ ∀ name ∈ repositories.map Repository.name, name ∉ seen := by
  induction values generalizing seen repositories with
  | nil =>
    cases h
    simp
  | cons value values ih =>
    cases value with
    | obj object =>
      rw [parseRepositories] at h
      split at h
      · cases h
      · next hnew =>
        split at h
        · next rest hrest =>
          cases h
          obtain ⟨hnodup, hseen⟩ := ih hrest
          rw [List.map_cons, List.nodup_cons, List.forall_mem_cons]
          refine ⟨⟨fun hmem => hseen _ hmem List.mem_cons_self, hnodup⟩, hnew, ?_⟩
          exact fun name hname hin => hseen name hname (List.mem_cons_of_mem _ hin)
        · cases h
    | _ => cases h

theorem parseTransaction_fields {raw : RawManifest} {tx : Transaction} (h : parseTransaction raw = .ok tx) :
    tx.packageChunks.all PackageChunk.valid = true ∧ (tx.repositories.map Repository.name).Nodup := by
  obtain ⟨_, _, _, hrepositories, rfl, hfields⟩ := parseTransaction_read h
  refine ⟨?_, (parseRepositories_names hrepositories).1⟩
  unfold validateTransactionFields at hfields
  iterate 9 obtain ⟨-, hfields⟩ := guard_ok.mp hfields
  obtain ⟨hchunks, -⟩ := guard_ok.mp hfields
  simpa using hchunks

theorem selectArchitecture_fields {target : String} {tx selected : Transaction} (h : selectArchitecture target tx = .ok selected) :
    selected.packageChunks = tx.packageChunks ∧ selected.repositories.Sublist tx.repositories := by
  unfold selectArchitecture at h
  obtain ⟨-, h⟩ := guard_ok.mp h
  obtain ⟨-, h⟩ := guard_ok.mp h
  cases h
  exact ⟨rfl, List.filter_sublist⟩

/-- A transaction that is retained was accepted. -/
theorem retainTransaction_accepted {first second : Env} {manifestUrl : String} {r : RetainedInputs}
    (h : retainTransaction literal sha256 client first second manifestUrl = .ok r) : Accepted literal sha256 client r := by
  unfold retainTransaction at h
  obtain ⟨ref₁, -, h⟩ := bind_ok.mp h
  obtain ⟨verified, -, h⟩ := bind_ok.mp h
  obtain ⟨ref, -, h⟩ := bind_ok.mp h
  obtain ⟨root, hroot, h⟩ := bind_ok.mp h
  obtain ⟨parsed, hparsed, h⟩ := bind_ok.mp h
  obtain ⟨tx, htx, h⟩ := bind_ok.mp h
  obtain ⟨-, h⟩ := guard_ok.mp h
  obtain ⟨system, hsystem, h⟩ := bind_ok.mp h
  obtain ⟨opr, hopr, h⟩ := bind_ok.mp h
  obtain ⟨⟨⟩, -, h⟩ := bind_ok.mp h
  obtain ⟨⟨⟩, hurls, h⟩ := bind_ok.mp h
  cases h
  obtain ⟨hchunks, hsublist⟩ := selectArchitecture_fields htx
  obtain ⟨hvalid, hnames⟩ := parseTransaction_fields hparsed
  refine ⟨fetchSignedAt_digest hroot, fetchReference_digest hsystem, fetchReference_digest hopr, hurls, ?_, ?_⟩
  · change tx.packageChunks.all _ = true
    rw [hchunks]
    exact hvalid
  · exact hnames.sublist (hsublist.map _)

/-! ## Digests -/

theorem toLower_of_isLowerHex {c : Char} (h : Hash.isLowerHex c = true) : c.toLower = c := by
  unfold Hash.isLowerHex at h
  simp only [Bool.or_eq_true, Bool.and_eq_true, decide_eq_true_eq] at h
  have hupper : ¬('A'.val ≤ c.val ∧ c.val ≤ 'Z'.val) := by
    rintro ⟨h1, h2⟩
    rcases h with ⟨-, h⟩ | ⟨h, -⟩
    · exact absurd (UInt32.le_trans h1 h) (by decide)
    · exact absurd (UInt32.le_trans h h2) (by decide)
  unfold Char.toLower
  exact dif_neg hupper

theorem lowerText_of_isSha256 {s : String} (h : isSha256 s = true) : lowerText s = s := by
  unfold isSha256 Hash.isHexDigest at h
  rw [Bool.and_eq_true] at h
  have hmap : s.toList.map Char.toLower = s.toList := by
    conv_rhs => rw [← List.map_id s.toList]
    exact List.map_congr_left fun c hc => toLower_of_isLowerHex (List.all_eq_true.mp h.2 c hc)
  rw [lowerText, hmap, String.ofList_toList]

theorem repository_digest {r : RetainedInputs} (h : Accepted literal sha256 client r) :
    ∀ repository ∈ r.tx.repositories, isSha256 repository.snapshotDigest = true := by
  have hurls := h.urls
  unfold validateTransactionURL at hurls
  obtain ⟨⟨⟩, -, hurls⟩ := bind_ok.mp hurls
  obtain ⟨⟨⟩, -, hurls⟩ := bind_ok.mp hurls
  obtain ⟨⟨⟩, -, hurls⟩ := bind_ok.mp hurls
  obtain ⟨⟨⟩, hrepositories, -⟩ := bind_ok.mp hurls
  intro repository hmem
  have hvalid := forM_ok.mp hrepositories repository hmem
  unfold validateRepositoryURL at hvalid
  obtain ⟨hidentity, -⟩ := guard_ok.mp hvalid
  rw [not_or, not_or] at hidentity
  simpa using hidentity.2.2

theorem chunk_digest {r : RetainedInputs} (h : Accepted literal sha256 client r) :
    ∀ chunk ∈ r.tx.packageChunks, isSha256 chunk.digest = true := by
  intro chunk hmem
  have hvalid := List.all_eq_true.mp h.chunks chunk hmem
  unfold PackageChunk.valid at hvalid
  simp only [Bool.and_eq_true] at hvalid
  exact hvalid.1.1.1.1.1.2

end

/-! ## Writing -/

/-- What a part of the run adds: files of these names, the ones that its references are of among them. Without the
overwrite flag none of them was written before. -/
structure Adds (sha256 : Bytes → Hash.Digest) (overwrite : Bool) (out out' : Output) (names : List String)
    (refs : List (String × String)) : Prop where
  before : out'.before = out.before
  written : ∃ files : List (String × Bytes), out'.written = out.written ++ files ∧ files.map Prod.fst = names ∧
    ∀ f ∈ refs, ∃ data, (f.1, data) ∈ files ∧ sha256Hex sha256 data = f.2
  once : overwrite = false → (out.written.map Prod.fst).Nodup → (out'.written.map Prod.fst).Nodup

section
variable {sha256 : Bytes → Hash.Digest} {overwrite : Bool} {out out' out'' : Output}

theorem Adds.refl (out : Output) : Adds sha256 overwrite out out [] [] := ⟨rfl, ⟨[], by simp, rfl, by simp⟩, fun _ h => h⟩

theorem Adds.trans {names names' : List String} {refs refs' : List (String × String)}
    (h : Adds sha256 overwrite out out' names refs) (h' : Adds sha256 overwrite out' out'' names' refs') :
    Adds sha256 overwrite out out'' (names ++ names') (refs ++ refs') := by
  obtain ⟨files, hfiles, hnames, hrefs⟩ := h.written
  obtain ⟨files', hfiles', hnames', hrefs'⟩ := h'.written
  refine ⟨h'.before.trans h.before, ⟨files ++ files', ?_, ?_, ?_⟩, fun ho hn => h'.once ho (h.once ho hn)⟩
  · rw [hfiles', hfiles, List.append_assoc]
  · rw [List.map_append, hnames, hnames']
  · intro f hf
    rcases List.mem_append.mp hf with hf | hf
    · obtain ⟨data, hdata, hsha⟩ := hrefs f hf
      exact ⟨data, List.mem_append_left _ hdata, hsha⟩
    · obtain ⟨data, hdata, hsha⟩ := hrefs' f hf
      exact ⟨data, List.mem_append_right _ hdata, hsha⟩

theorem get_of_written {name : String} {data : Bytes} (h : (name, data) ∈ out.written) : (out.get name).isSome = true := by
  unfold Output.get
  rw [Option.isSome_map, List.find?_isSome]
  exact ⟨(name, data), List.mem_append_left _ (List.mem_reverse.mpr h), by simp⟩

/-- Of files with different names each is stored as it was written. -/
theorem get_written {name : String} {data : Bytes} (hnodup : (out.written.map Prod.fst).Nodup)
    (h : (name, data) ∈ out.written) : out.get name = some data := by
  unfold Output.get
  rw [List.find?_append]
  cases hfound : out.written.reverse.find? (·.1 = name) with
  | none =>
    have := List.find?_eq_none.mp hfound (name, data) (List.mem_reverse.mpr h)
    simp at this
  | some f =>
    have hname : f.1 = name := by simpa using List.find?_some hfound
    have hmem : f ∈ out.written := List.mem_reverse.mp (List.mem_of_find?_eq_some hfound)
    have heq : f = (name, data) := List.inj_on_of_nodup_map hnodup hmem h hname
    rw [heq]
    rfl

theorem write_adds (sha256 : Bytes → Hash.Digest) {name : String} {data : Bytes} (h : out.write overwrite name data = .ok out') :
    Adds sha256 overwrite out out' [name] [(name, sha256Hex sha256 data)] := by
  unfold Output.write at h
  obtain ⟨hfree, h⟩ := guard_ok.mp h
  cases h
  refine ⟨rfl, ⟨[(name, data)], rfl, rfl, ?_⟩, ?_⟩
  · intro f hf
    rw [List.mem_singleton.mp hf]
    exact ⟨data, List.mem_singleton.mpr rfl, rfl⟩
  · intro ho hnodup
    rw [List.map_append, List.map_singleton]
    refine List.Nodup.append hnodup (List.nodup_singleton _) ?_
    intro taken htaken hname
    obtain ⟨⟨path, bytes⟩, hmem, rfl⟩ := List.mem_map.mp htaken
    rw [List.mem_singleton] at hname
    have hpath : path = name := hname
    rw [hpath] at hmem
    exact hfree ⟨ho, get_of_written hmem⟩

theorem writeManifest_adds {raw : RawManifest} {name : String} {ref : ImageLockRef}
    (hraw : raw.document.digest = sha256Hex sha256 raw.document.canonical)
    (h : writeManifest sha256 overwrite raw name out = .ok (ref, out')) :
    Adds sha256 overwrite out out' [name, name ++ ".sig"] ref.files := by
  unfold writeManifest at h
  obtain ⟨out₁, hdocument, h⟩ := bind_ok.mp h
  obtain ⟨out₂, hsignature, h⟩ := bind_ok.mp h
  cases h
  have hadds := (write_adds sha256 hdocument).trans (write_adds sha256 hsignature)
  rw [← hraw] at hadds
  exact hadds

/-! ## Names -/

def repositoryFiles (repository : Repository) : List String :=
  [repositoryFile repository.name, repositoryFile repository.name ++ ".sig"]

def fixedFiles : List String :=
  ["transaction.json", "transaction.json.sig", "system.json", "system.json.sig", "opr.json", "opr.json.sig"]

def chunkFiles (index count : Nat) : List String := (List.range' index count).map chunkFile

/-- All files of a lock, in the order in which they are written. -/
def lockNames (tx : Transaction) : List String :=
  fixedFiles ++ tx.repositories.flatMap repositoryFiles ++ chunkFiles 0 tx.packageChunks.length ++ ["release-lock.json"]

section
variable {literal : List Char → Option (List Char)} {client : ManifestClient} {env : Env}
  {unmarshalChunk : Bytes → Option ChunkObject}

theorem writeRepositories_adds {manifestUrl : String} {place : Nat} {repositories : List Repository}
    {refs : List ImageLockRepository} (hdigest : ∀ repository ∈ repositories, isSha256 repository.snapshotDigest = true)
    (h : writeRepositories literal sha256 client env overwrite manifestUrl place repositories out = .ok (refs, out')) :
    Adds sha256 overwrite out out' (repositories.flatMap repositoryFiles) (refs.flatMap ImageLockRepository.files) := by
  induction repositories generalizing place out refs with
  | nil =>
    cases h
    exact .refl _
  | cons repository rest ih =>
    rw [List.forall_mem_cons] at hdigest
    rw [writeRepositories] at h
    obtain ⟨⟨⟩, -, h⟩ := bind_ok.mp h
    obtain ⟨⟨⟩, -, h⟩ := bind_ok.mp h
    obtain ⟨database, -, h⟩ := bind_ok.mp h
    obtain ⟨hsha, h⟩ := guard_ok.mp h
    obtain ⟨signature, -, h⟩ := bind_ok.mp h
    obtain ⟨⟨⟩, -, h⟩ := bind_ok.mp h
    obtain ⟨out₁, hdatabase, h⟩ := bind_ok.mp h
    obtain ⟨out₂, hsignature, h⟩ := bind_ok.mp h
    obtain ⟨⟨refs', out₃⟩, hrest, h⟩ := bind_ok.mp h
    cases h
    have hadds := ((write_adds sha256 hdatabase).trans (write_adds sha256 hsignature)).trans (ih hdigest.2 hrest)
    rw [not_not, lowerText_of_isSha256 hdigest.1] at hsha
    rw [hsha] at hadds
    exact hadds

theorem writeChunks_adds {manifestUrl : String} {tx : Transaction} {place index : Nat} {chunks : List PackageChunk}
    {selected selected' : List ImageLockPackage} {refs : List ImageLockRef} {count : Nat}
    (hdigest : ∀ chunk ∈ chunks, isSha256 chunk.digest = true)
    (h : writeChunks literal sha256 client unmarshalChunk env overwrite manifestUrl tx place index chunks out selected =
      .ok (refs, out', selected', count)) :
    Adds sha256 overwrite out out' (chunkFiles index chunks.length) (refs.map fun ref => (ref.path, ref.sha256)) := by
  induction chunks generalizing place index out selected refs count with
  | nil =>
    cases h
    exact .refl _
  | cons chunk rest ih =>
    rw [List.forall_mem_cons] at hdigest
    rw [writeChunks] at h
    obtain ⟨⟨⟩, -, h⟩ := bind_ok.mp h
    obtain ⟨data, -, h⟩ := bind_ok.mp h
    obtain ⟨hsha, h⟩ := guard_ok.mp h
    split at h
    · cases h
    · obtain ⟨-, h⟩ := guard_ok.mp h
      obtain ⟨out₁, hwrite, h⟩ := bind_ok.mp h
      obtain ⟨next, -, h⟩ := bind_ok.mp h
      obtain ⟨⟨refs', out₂, selected'', count'⟩, hrest, h⟩ := bind_ok.mp h
      cases h
      have hadds := (write_adds sha256 hwrite).trans (ih hdigest.2 hrest)
      rw [not_not, lowerText_of_isSha256 hdigest.1] at hsha
      rw [hsha] at hadds
      exact hadds

/-- The whole run: the files are those of the names, and the lock's references are of them. -/
theorem writeRetained_adds {choices : Choices} {r : RetainedInputs} {lock : ImageLock}
    (hr : Accepted literal sha256 client r)
    (h : writeRetained literal sha256 client unmarshalChunk env overwrite choices r out = .ok (lock, out')) :
    Adds sha256 overwrite out out' (lockNames r.tx) lock.files := by
  unfold writeRetained at h
  obtain ⟨⟨transaction, system, opr, c⟩, hcollect, h⟩ := bind_ok.mp h
  obtain ⟨out₆, hlock, h⟩ := bind_ok.mp h
  cases h
  unfold collectInputs at hcollect
  obtain ⟨⟨t, out₁⟩, hroot, hcollect⟩ := bind_ok.mp hcollect
  obtain ⟨⟨s, out₂⟩, hsystem, hcollect⟩ := bind_ok.mp hcollect
  obtain ⟨⟨o, out₃⟩, hopr, hcollect⟩ := bind_ok.mp hcollect
  obtain ⟨⟨repositories, out₄⟩, hrepositories, hcollect⟩ := bind_ok.mp hcollect
  obtain ⟨⟨chunks, out₅, selected, count⟩, hchunks, hcollect⟩ := bind_ok.mp hcollect
  obtain ⟨-, hcollect⟩ := guard_ok.mp hcollect
  obtain ⟨-, hcollect⟩ := guard_ok.mp hcollect
  cases hcollect
  have hmanifests := ((writeManifest_adds hr.root hroot).trans (writeManifest_adds hr.system hsystem)).trans
    (writeManifest_adds hr.opr hopr)
  have hall := ((hmanifests.trans (writeRepositories_adds (repository_digest hr) hrepositories)).trans
    (writeChunks_adds (chunk_digest hr) hchunks)).trans (write_adds sha256 hlock)
  -- the lock itself is no reference of the lock
  refine ⟨hall.before, ?_, hall.once⟩
  obtain ⟨files, hwritten, hnames, hrefs⟩ := hall.written
  exact ⟨files, hwritten, hnames, fun f hf => hrefs f (List.mem_append_left _ hf)⟩

end

end

/-! ## Names that differ -/

/-- What the kinds of files are told apart by. -/
def tag (name : String) : List Char := name.toList.take 3

theorem tag_repositoryFile (name : String) : tag (repositoryFile name) = "rep".toList ∧
    tag (repositoryFile name ++ ".sig") = "rep".toList := by
  unfold tag repositoryFile
  simp [String.toList_append]

theorem tag_chunkFile (index : Nat) : tag (chunkFile index) = "pac".toList := by
  unfold tag chunkFile
  simp [String.toList_append]

theorem repositoryFile_ne (name name' : String) : repositoryFile name ≠ repositoryFile name' ++ ".sig" := by
  intro h
  have hlast := congrArg (fun s : String => s.toList.getLast?) h
  unfold repositoryFile at hlast
  simp [String.toList_append, List.getLast?_cons, List.getLast?_append] at hlast

theorem ofDigitChars_zeros (n k : Nat) : Nat.ofDigitChars 10 (List.replicate k '0' ++ Nat.toDigits 10 n) 0 = n := by
  induction k with
  | zero => simp
  | succ k ih => exact ih

theorem chunkFile_injective {i j : Nat} (h : chunkFile i = chunkFile j) : i = j := by
  unfold chunkFile pad4 at h
  have hlist := congrArg String.toList h
  simp only [String.toList_append, String.toList_ofList, List.append_cancel_left_eq, List.append_cancel_right_eq] at hlist
  have hvalue := congrArg (fun cs => Nat.ofDigitChars 10 cs 0) hlist
  simpa only [ofDigitChars_zeros] using hvalue

theorem nodup_repositoryFiles (repositories : List Repository) : (repositories.flatMap repositoryFiles).Nodup ↔
    (repositories.map fun r => repositoryFile r.name).Nodup := by
  induction repositories with
  | nil => simp
  | cons r rest ih =>
    have hmem : ∀ name, name ∈ rest.flatMap repositoryFiles ↔
        ∃ r' ∈ rest, name = repositoryFile r'.name ∨ name = repositoryFile r'.name ++ ".sig" := by
      intro name
      simp [repositoryFiles, List.mem_flatMap]
    have hsig : repositoryFile r.name ++ ".sig" ∈ rest.flatMap repositoryFiles ↔
        repositoryFile r.name ∈ rest.map fun r => repositoryFile r.name := by
      rw [hmem, List.mem_map]
      refine exists_congr fun r' => and_congr_right fun _ => ?_
      constructor
      · rintro (h | h)
        · exact absurd h.symm (repositoryFile_ne _ _)
        · exact (String.append_left_inj _).mp h.symm
      · rintro h
        exact .inr (by rw [h])
    have hfile : repositoryFile r.name ∈ rest.flatMap repositoryFiles ↔
        repositoryFile r.name ∈ rest.map fun r => repositoryFile r.name := by
      rw [hmem, List.mem_map]
      refine exists_congr fun r' => and_congr_right fun _ => ?_
      constructor
      · rintro (h | h)
        · exact h.symm
        · exact absurd h (repositoryFile_ne _ _)
      · rintro h
        exact .inl h.symm
    rw [List.flatMap_cons, List.map_cons, List.nodup_cons, ← ih]
    change (repositoryFile r.name :: (repositoryFile r.name ++ ".sig") :: rest.flatMap repositoryFiles).Nodup ↔ _
    rw [List.nodup_cons, List.nodup_cons, List.mem_cons, hfile, hsig]
    have hne := repositoryFile_ne r.name r.name
    tauto

/-- The files of a lock have different names just if those of its databases have. -/
theorem nodup_lockNames (tx : Transaction) : (lockNames tx).Nodup ↔
    (tx.repositories.map fun r => repositoryFile r.name).Nodup := by
  have hrepository : ∀ name ∈ tx.repositories.flatMap repositoryFiles, tag name = "rep".toList := by
    intro name hname
    obtain ⟨r, -, hr⟩ := List.mem_flatMap.mp hname
    rcases List.mem_cons.mp hr with rfl | hr
    · exact (tag_repositoryFile _).1
    · rw [List.mem_singleton.mp hr]
      exact (tag_repositoryFile _).2
  have hchunk : ∀ name ∈ chunkFiles 0 tx.packageChunks.length, tag name = "pac".toList := by
    intro name hname
    obtain ⟨i, -, rfl⟩ := List.mem_map.mp hname
    exact tag_chunkFile i
  have hfixed : ∀ name ∈ fixedFiles, tag name ≠ "rep".toList ∧ tag name ≠ "pac".toList ∧ tag name ≠ "rel".toList := by decide
  have hlock : tag "release-lock.json" = "rel".toList := by decide
  have hchunks : (chunkFiles 0 tx.packageChunks.length).Nodup :=
    List.Nodup.map (fun _ _ h => chunkFile_injective h) List.nodup_range'
  rw [← nodup_repositoryFiles]
  constructor
  · intro h
    unfold lockNames at h
    exact (List.nodup_append.mp (List.nodup_append.mp (List.nodup_append.mp h).1).1).2.1
  · intro h
    unfold lockNames
    refine List.Nodup.append (List.Nodup.append (List.Nodup.append (by decide) h ?_) hchunks ?_) (List.nodup_singleton _) ?_
    · intro name h1 h2
      exact (hfixed name h1).1 (hrepository name h2)
    · intro name h1 h2
      rcases List.mem_append.mp h1 with h1 | h1
      · exact (hfixed name h1).2.1 (hchunk name h2)
      · exact absurd ((hrepository name h1).symm.trans (hchunk name h2)) (by decide)
    · intro name h1 h2
      rw [List.mem_singleton.mp h2] at h1
      rcases List.mem_append.mp h1 with h1 | h1
      · rcases List.mem_append.mp h1 with h1 | h1
        · exact (hfixed _ h1).2.2 hlock
        · exact absurd ((hrepository _ h1).symm.trans hlock) (by decide)
      · exact absurd ((hchunk _ h1).symm.trans hlock) (by decide)

/-! ## The lock of a run -/

section
variable {literal : List Char → Option (List Char)} {sha256 : Bytes → Hash.Digest} {client : ManifestClient} {env : Env}
  {unmarshalChunk : Bytes → Option ChunkObject} {overwrite : Bool} {choices : Choices} {r : RetainedInputs}
  {lock : ImageLock} {before : List (String × Bytes)} {out : Output}

/-- Files of different names are all that a lock needs to be faithful. -/
theorem faithful_iff_once (hr : Accepted literal sha256 client r)
    (h : writeRetained literal sha256 client unmarshalChunk env overwrite choices r ⟨before, []⟩ = .ok (lock, out)) :
    Faithful sha256 lock out ↔ (out.written.map Prod.fst).Nodup := by
  obtain ⟨files, hwritten, -, hrefs⟩ := (writeRetained_adds hr h).written
  rw [List.nil_append] at hwritten
  constructor
  · exact fun hf => hf.once
  · intro hnodup
    refine ⟨fun f hf => ?_, hnodup⟩
    obtain ⟨data, hdata, hsha⟩ := hrefs f hf
    rw [← hwritten] at hdata
    rw [get_written hnodup hdata, Option.map_some, hsha]

theorem written_names (hr : Accepted literal sha256 client r)
    (h : writeRetained literal sha256 client unmarshalChunk env overwrite choices r ⟨before, []⟩ = .ok (lock, out)) :
    out.written.map Prod.fst = lockNames r.tx := by
  obtain ⟨files, hwritten, hnames, -⟩ := (writeRetained_adds hr h).written
  rw [hwritten, List.nil_append, hnames]

theorem once_of_refusing (hr : Accepted literal sha256 client r)
    (h : writeRetained literal sha256 client unmarshalChunk env false choices r ⟨before, []⟩ = .ok (lock, out)) :
    (out.written.map Prod.fst).Nodup :=
  (writeRetained_adds hr h).once rfl List.nodup_nil

end

/-- The files of an accepted transaction are those that its lock refers to just if no two of its repositories have
names that differ in `_` and `-` only. Without the overwrite flag none have, or the run fails. -/
theorem image_lock_faithful_iff {literal : List Char → Option (List Char)} {sha256 : Bytes → Hash.Digest}
    {client : ManifestClient} {r : RetainedInputs} (hr : Accepted literal sha256 client r)
    (unmarshalChunk : Bytes → Option ChunkObject) (env : Env) (overwrite : Bool) (choices : Choices)
    (before : List (String × Bytes)) {lock : ImageLock} {out : Output}
    (h : writeRetained literal sha256 client unmarshalChunk env overwrite choices r ⟨before, []⟩ = .ok (lock, out)) :
    (Faithful sha256 lock out ↔ (r.tx.repositories.map fun repository => repositoryFile repository.name).Nodup) ∧
      (overwrite = false → Faithful sha256 lock out) := by
  rw [faithful_iff_once hr h]
  constructor
  · rw [written_names hr h]
    exact nodup_lockNames r.tx
  · intro ho
    rw [ho] at h
    exact once_of_refusing hr h

namespace LockSample

/-- A repository with a database of its own. -/
def named (name : String) (database : Bytes) : Repository :=
  { repository name with
    snapshotDigest := (digestOf database).hex, dbUrl := "https://h/" ++ name ++ "/d.db"
    signatureUrl := "https://h/" ++ name ++ "/d.db.sig", packageBaseUrl := "https://h/" ++ name }

def databases : Env :=
  { Edited.sampleEnv with
    get := fun _ url => .ok ⟨200, 0, .ok (if url = "https://h/a-b/d.db" then [1] else [1, 1])⟩ }

/-- No packages, and these repositories. -/
def bare (repositories : List Repository) : RetainedInputs :=
  ⟨"https://h/t", manifest "https://h/t.sig", manifest "https://h/s.sig", manifest "https://h/o.sig",
    transaction repositories [] 0⟩

def choices : Choices := ⟨insertionSlice, id⟩

def run (overwrite : Bool) (repositories : List Repository) : Except GoError (ImageLock × Output) :=
  writeRetained Edited.noLiteral digestOf Edited.sampleClient (fun _ => none) databases overwrite choices (bare repositories)
    ⟨[], []⟩

theorem bare_accepted {repositories : List Repository}
    (hurls : (validateTransactionURL Edited.noLiteral Edited.sampleClient "https://h/t" (transaction repositories [] 0)).toOption =
      some ()) (hnames : (repositories.map Repository.name).Nodup) :
    Accepted Edited.noLiteral digestOf Edited.sampleClient (bare repositories) := by
  refine ⟨rfl, rfl, rfl, ?_, rfl, hnames⟩
  cases hv : validateTransactionURL Edited.noLiteral Edited.sampleClient "https://h/t" (transaction repositories [] 0) with
  | error e =>
    rw [hv] at hurls
    cases hurls
  | ok u => exact hv

def apart : List Repository := [named "a-b" [1], named "a-c" [1, 1]]

def alike : List Repository := [named "a-b" [1], named "a_b" [1, 1]]

/-- The transactions of both are of valid URLs, and both runs come to their end. -/
theorem run_ok : (∀ repositories ∈ [apart, alike],
      (validateTransactionURL Edited.noLiteral Edited.sampleClient "https://h/t" (transaction repositories [] 0)).toOption = some ()) ∧
    (run true apart).toOption.isSome = true ∧ (run true alike).toOption.isSome = true := by
  decide +kernel

theorem apart_accepted : Accepted Edited.noLiteral digestOf Edited.sampleClient (bare apart) :=
  bare_accepted (run_ok.1 _ List.mem_cons_self) (by decide)

theorem alike_accepted : Accepted Edited.noLiteral digestOf Edited.sampleClient (bare alike) :=
  bare_accepted (run_ok.1 _ (List.mem_cons_of_mem _ List.mem_cons_self)) (by decide)

theorem exists_run {overwrite : Bool} {repositories : List Repository}
    (h : (run overwrite repositories).toOption.isSome = true) : ∃ lock out, run overwrite repositories = .ok (lock, out) := by
  cases hrun : run overwrite repositories with
  | error e =>
    rw [hrun] at h
    cases h
  | ok x => exact ⟨x.1, x.2, rfl⟩

end LockSample

open LockSample in
theorem image_lock_faithful_apart : ∃ lock out, run true apart = .ok (lock, out) ∧ Faithful digestOf lock out := by
  obtain ⟨lock, out, hrun⟩ := exists_run run_ok.2.1
  exact ⟨lock, out, hrun, (image_lock_faithful_iff apart_accepted _ _ _ _ _ hrun).1.mpr (by decide)⟩

open LockSample in
/-- The databases of `a-b` and `a_b` are one file, and the second is written over the first. -/
theorem database_overwritten :
    ¬∀ (literal : List Char → Option (List Char)) (sha256 : Bytes → Hash.Digest) (client : ManifestClient)
      (r : RetainedInputs), Accepted literal sha256 client r →
        ∀ (unmarshalChunk : Bytes → Option ChunkObject) (env : Env) (overwrite : Bool) (choices : Choices)
          (before : List (String × Bytes)) (lock : ImageLock) (out : Output),
          writeRetained literal sha256 client unmarshalChunk env overwrite choices r ⟨before, []⟩ = .ok (lock, out) →
            Faithful sha256 lock out := by
  intro h
  obtain ⟨lock, out, hrun⟩ := exists_run run_ok.2.2
  have hfaithful := h _ _ _ _ alike_accepted _ _ _ _ _ lock out hrun
  have honce := (faithful_iff_once alike_accepted hrun).mp hfaithful
  rw [written_names alike_accepted hrun, nodup_lockNames] at honce
  revert honce
  decide

end Omapkg.Client
