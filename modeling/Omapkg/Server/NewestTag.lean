import Mathlib.Data.List.Induction
import Omapkg.Server.TagPrecedence
/-!
# The newest tag

Which tag `parseGitTags` returns: the first of the newest ones in the order of the lines.
Where two tags of one rank are the newest, the order of the lines decides between them.
-/

namespace Omapkg.Server.Tags

/-! ## The tags that were listed -/

/-- What the entries say of the lines that were read. -/
structure Recorded (lines : List TagLine) (entries : List TagEntry) : Prop where
  tags : ∀ t, t ∈ entries.map (·.tag) ↔ t ∈ lines.map (·.tag)
  first : (entries.map (·.tag)).head? = (lines.map (·.tag)).head?
  commit : ∀ e ∈ entries, ∀ c, e.commit = some c → ∃ line ∈ lines, line.tag = e.tag ∧ line.commit = c
  peeled : ∀ e ∈ entries, ∀ c, e.peeled = some c →
    ∃ line ∈ lines, line.tag = e.tag ∧ line.commit = c ∧ line.peeled = true
  unpeeled : ∀ e ∈ entries, e.peeled = none → ∀ line ∈ lines, line.tag = e.tag → line.peeled = false
  read : ∀ e ∈ entries, e.peeled.or e.commit ≠ none

section
variable {lines : List TagLine} {entries : List TagEntry} {line : TagLine}

@[simp] theorem TagEntry.put_tag (entry : TagEntry) (line : TagLine) : (entry.put line).tag = entry.tag := by
  unfold TagEntry.put
  split <;> rfl

theorem recordTag_tags : (recordTag entries line).map (·.tag) =
    if line.tag ∈ entries.map (·.tag) then entries.map (·.tag) else entries.map (·.tag) ++ [line.tag] := by
  unfold recordTag
  split
  · rw [List.map_map]
    refine List.map_congr_left fun entry _ => ?_
    simp only [Function.comp_apply]
    split
    · exact entry.put_tag line
    · rfl
  · rw [List.map_append, List.map_singleton, TagEntry.put_tag]

/-- What one line leaves of what an entry is recorded for. -/
theorem TagEntry.put_recorded {entry : TagEntry} (htag : entry.tag = line.tag)
    (hcommit : ∀ c, entry.commit = some c → ∃ l ∈ lines, l.tag = entry.tag ∧ l.commit = c)
    (hpeeled : ∀ c, entry.peeled = some c → ∃ l ∈ lines, l.tag = entry.tag ∧ l.commit = c ∧ l.peeled = true)
    (hunpeeled : entry.peeled = none → ∀ l ∈ lines, l.tag = entry.tag → l.peeled = false) :
    (∀ c, (entry.put line).commit = some c → ∃ l ∈ lines ++ [line], l.tag = entry.tag ∧ l.commit = c) ∧
      (∀ c, (entry.put line).peeled = some c →
        ∃ l ∈ lines ++ [line], l.tag = entry.tag ∧ l.commit = c ∧ l.peeled = true) ∧
      ((entry.put line).peeled = none → ∀ l ∈ lines ++ [line], l.tag = entry.tag → l.peeled = false) ∧
      (entry.put line).peeled.or (entry.put line).commit ≠ none := by
  have hlast : line ∈ lines ++ [line] := List.mem_append_right _ (List.mem_singleton_self _)
  unfold TagEntry.put
  split
  · rename_i hline
    refine ⟨fun c hc => ?_, fun c hc => ?_, fun hnone => ?_, ?_⟩
    · obtain ⟨l, hl, hrest⟩ := hcommit c hc
      exact ⟨l, List.mem_append_left _ hl, hrest⟩
    · cases hc
      exact ⟨line, hlast, htag.symm, rfl, hline⟩
    · cases hnone
    · exact Option.some_ne_none _
  · rename_i hline
    refine ⟨fun c hc => ?_, fun c hc => ?_, fun hnone l hl hltag => ?_, ?_⟩
    · cases hc
      exact ⟨line, hlast, htag.symm, rfl⟩
    · obtain ⟨l, hl, hrest⟩ := hpeeled c hc
      exact ⟨l, List.mem_append_left _ hl, hrest⟩
    · rcases List.mem_append.mp hl with hl | hl
      · exact hunpeeled hnone l hl hltag
      · rw [List.mem_singleton.mp hl]
        exact Bool.eq_false_iff.mpr hline
    · cases entry.peeled with
      | none => exact Option.some_ne_none _
      | some c => exact Option.some_ne_none _

/-- One more line. -/
theorem Recorded.next (h : Recorded lines entries) (line : TagLine) :
    Recorded (lines ++ [line]) (recordTag entries line) := by
  have htags : ∀ t, t ∈ (recordTag entries line).map (·.tag) ↔ t ∈ (lines ++ [line]).map (·.tag) := by
    intro t
    rw [recordTag_tags, List.map_append, List.mem_append, ← h.tags]
    split
    · rename_i hmem
      refine ⟨.inl, fun ht => ht.elim id fun ht => ?_⟩
      rw [List.mem_singleton.mp ht]
      exact hmem
    · exact List.mem_append
  have hfirst : ((recordTag entries line).map (·.tag)).head? = ((lines ++ [line]).map (·.tag)).head? := by
    rw [recordTag_tags, List.map_append, List.head?_append, ← h.first]
    split
    · rename_i hmem
      cases hnil : entries.map (·.tag) with
      | nil =>
        rw [hnil] at hmem
        cases hmem
      | cons => rfl
    · rw [List.head?_append]
      rfl
  have hentries : ∀ e ∈ recordTag entries line,
      (∀ c, e.commit = some c → ∃ l ∈ lines ++ [line], l.tag = e.tag ∧ l.commit = c) ∧
        (∀ c, e.peeled = some c → ∃ l ∈ lines ++ [line], l.tag = e.tag ∧ l.commit = c ∧ l.peeled = true) ∧
        (e.peeled = none → ∀ l ∈ lines ++ [line], l.tag = e.tag → l.peeled = false) ∧ e.peeled.or e.commit ≠ none := by
    have hkept : ∀ e ∈ entries, e.tag ≠ line.tag →
        (∀ c, e.commit = some c → ∃ l ∈ lines ++ [line], l.tag = e.tag ∧ l.commit = c) ∧
          (∀ c, e.peeled = some c → ∃ l ∈ lines ++ [line], l.tag = e.tag ∧ l.commit = c ∧ l.peeled = true) ∧
          (e.peeled = none → ∀ l ∈ lines ++ [line], l.tag = e.tag → l.peeled = false) ∧
          e.peeled.or e.commit ≠ none := by
      intro e he hne
      refine ⟨fun c hc => ?_, fun c hc => ?_, fun hnone l hl hltag => ?_, h.read e he⟩
      · obtain ⟨l, hl, hrest⟩ := h.commit e he c hc
        exact ⟨l, List.mem_append_left _ hl, hrest⟩
      · obtain ⟨l, hl, hrest⟩ := h.peeled e he c hc
        exact ⟨l, List.mem_append_left _ hl, hrest⟩
      · rcases List.mem_append.mp hl with hl | hl
        · exact h.unpeeled e he hnone l hl hltag
        · exact absurd (List.mem_singleton.mp hl ▸ hltag).symm hne
    intro e he
    unfold recordTag at he
    split at he
    · obtain ⟨entry, hentry, rfl⟩ := List.mem_map.mp he
      split
      · rename_i htag
        rw [TagEntry.put_tag]
        exact TagEntry.put_recorded htag (h.commit entry hentry) (h.peeled entry hentry) (h.unpeeled entry hentry)
      · rename_i htag
        exact hkept entry hentry htag
    · rename_i hnew
      rcases List.mem_append.mp he with he | he
      · refine hkept e he fun htag => hnew ?_
        rw [← htag]
        exact List.mem_map_of_mem he
      · rw [List.mem_singleton.mp he, TagEntry.put_tag]
        refine TagEntry.put_recorded rfl (fun c hc => nomatch hc) (fun c hc => nomatch hc) fun _ l hl hltag => ?_
        refine absurd ((h.tags line.tag).mpr ?_) hnew
        have hltag' : l.tag = line.tag := hltag
        rw [← hltag']
        exact List.mem_map_of_mem hl
  exact ⟨htags, hfirst, fun e he => (hentries e he).1, fun e he => (hentries e he).2.1,
    fun e he => (hentries e he).2.2.1, fun e he => (hentries e he).2.2.2⟩

theorem recorded_nil : Recorded [] [] where
  tags _ := Iff.rfl
  first := rfl
  commit _ h := nomatch h
  peeled _ h := nomatch h
  unpeeled _ h := nomatch h
  read _ h := nomatch h

/-- All lines. -/
theorem recorded_lines (lines : List TagLine) : Recorded lines (lines.foldl recordTag []) := by
  induction lines using List.reverseRecOn with
  | nil => exact recorded_nil
  | append_singleton lines line ih =>
    rw [List.foldl_append]
    exact ih.next line

end

/-! ## The first of the newest -/

/-- What is the newest of the entries that were looked at. -/
structure Latest (done : List TagEntry) (latest : Option GitTag) : Prop where
  missing : latest = none → done = []
  found : ∀ l, latest = some l → ∃ e ∈ done, e.tag = l.version ∧ e.peeled.or e.commit = some l.commit
  newest : ∀ l, latest = some l → ∀ e ∈ done, rank e.tag ≤ rank l.version

theorem rank_le_iff {a b : Text} : compareTagVersions a b ≠ .gt ↔ rank a ≤ rank b := (compareTagVersions_compares a b).ne_gt

theorem rank_lt_of_gt {a b : Text} (h : compareTagVersions a b = .gt) : rank b < rank a :=
  (compareTagVersions_compares a b).eq_gt.mp h

/-- One more entry. -/
theorem Latest.next {done : List TagEntry} {latest : Option GitTag} (h : Latest done latest) {e : TagEntry}
    (hread : e.peeled.or e.commit ≠ none) : Latest (done ++ [e]) (newerTag latest e) := by
  have hlast : e ∈ done ++ [e] := List.mem_append_right _ (List.mem_singleton_self _)
  obtain ⟨commit, hcommit⟩ := Option.ne_none_iff_exists'.mp hread
  cases latest with
  | none =>
    have hnew : newerTag none e = some ⟨e.tag, commit⟩ := by simp [newerTag, hcommit]
    rw [hnew, h.missing rfl]
    refine ⟨fun hnone => (nomatch hnone), fun l hl => ?_, fun l hl f hf => ?_⟩
    · cases hl
      exact ⟨e, List.mem_singleton_self _, rfl, hcommit⟩
    · cases hl
      rw [List.mem_singleton.mp hf]
  | some found =>
    obtain ⟨f, hf, hfound⟩ := h.found found rfl
    by_cases hgt : compareTagVersions e.tag found.version = .gt
    · have hnew : newerTag (some found) e = some ⟨e.tag, commit⟩ := by simp [newerTag, hcommit, hgt]
      rw [hnew]
      refine ⟨fun hnone => (nomatch hnone), fun l hl => ?_, fun l hl g hg => ?_⟩
      · cases hl
        exact ⟨e, hlast, rfl, hcommit⟩
      · cases hl
        rcases List.mem_append.mp hg with hg | hg
        · exact (h.newest found rfl g hg).trans (rank_lt_of_gt hgt).le
        · rw [List.mem_singleton.mp hg]
    · have hnew : newerTag (some found) e = some found := by simp [newerTag, hcommit, hgt]
      rw [hnew]
      refine ⟨fun hnone => (nomatch hnone), fun l hl => ?_, fun l hl g hg => ?_⟩
      · cases hl
        exact ⟨f, List.mem_append_left _ hf, hfound⟩
      · cases hl
        rcases List.mem_append.mp hg with hg | hg
        · exact h.newest found rfl g hg
        · rw [List.mem_singleton.mp hg]
          exact rank_le_iff.mp hgt

theorem latest_entries {entries : List TagEntry} (hread : ∀ e ∈ entries, e.peeled.or e.commit ≠ none) :
    Latest entries (entries.foldl newerTag none) := by
  induction entries using List.reverseRecOn with
  | nil => exact ⟨fun _ => rfl, fun _ h => (nomatch h), fun _ h => (nomatch h)⟩
  | append_singleton entries e ih =>
    rw [List.foldl_append]
    refine (ih fun f hf => hread f (List.mem_append_left _ hf)).next (hread e ?_)
    exact List.mem_append_right _ (List.mem_singleton_self _)

/-- What is not older than any other stays. -/
theorem foldl_newerTag_keep {entries : List TagEntry} {found : GitTag}
    (h : ∀ e ∈ entries, rank e.tag ≤ rank found.version) : entries.foldl newerTag (some found) = some found := by
  induction entries with
  | nil => rfl
  | cons e entries ih =>
    obtain ⟨he, hrest⟩ := List.forall_mem_cons.mp h
    have hkeep : newerTag (some found) e = some found := by
      unfold newerTag
      split
      · rfl
      · exact if_neg (rank_le_iff.mpr he)
    rw [List.foldl_cons, hkeep]
    exact ih hrest

/-! ## `parseGitTags` -/

def listedTags (stdout : Text) : List Text := (tagLines stdout).map (·.tag)

/-- A listed tag that none is newer than. -/
def IsNewest (tags : List Text) (tag : Text) : Prop := tag ∈ tags ∧ ∀ other ∈ tags, compareTagVersions other tag ≠ .gt

theorem latest_parseGitTags (stdout : Text) :
    Latest ((tagLines stdout).foldl recordTag []) (parseGitTags stdout) := latest_entries (recorded_lines _).read

/-- The tag is a newest one, and its commit the peeled one where one is listed. -/
theorem parseGitTags_newest {stdout : Text} {latest : GitTag} (h : parseGitTags stdout = some latest) :
    IsNewest (listedTags stdout) latest.version ∧
      ∃ line ∈ tagLines stdout, line.tag = latest.version ∧ line.commit = latest.commit ∧
        (line.peeled = true ∨ ∀ other ∈ tagLines stdout, other.tag = latest.version → other.peeled = false) := by
  have hrecorded := recorded_lines (tagLines stdout)
  have hlatest := latest_parseGitTags stdout
  obtain ⟨e, he, htag, hcommit⟩ := hlatest.found latest h
  refine ⟨⟨?_, fun other hother => ?_⟩, ?_⟩
  · rw [← htag]
    exact (hrecorded.tags e.tag).mp (List.mem_map_of_mem he)
  · obtain ⟨f, hf, rfl⟩ := List.mem_map.mp ((hrecorded.tags other).mpr hother)
    exact rank_le_iff.mpr (hlatest.newest latest h f hf)
  · rw [← htag]
    rcases Option.or_eq_some_iff.mp hcommit with hpeeled | ⟨hnone, hcommit⟩
    · obtain ⟨line, hline, hltag, hlcommit, hlpeeled⟩ := hrecorded.peeled e he _ hpeeled
      exact ⟨line, hline, hltag, hlcommit, .inl hlpeeled⟩
    · obtain ⟨line, hline, hltag, hlcommit⟩ := hrecorded.commit e he _ hcommit
      exact ⟨line, hline, hltag, hlcommit, .inr (hrecorded.unpeeled e he hnone)⟩

theorem parseGitTags_none {stdout : Text} : parseGitTags stdout = none ↔ listedTags stdout = [] := by
  have hrecorded := recorded_lines (tagLines stdout)
  constructor
  · intro h
    have hnil := (latest_parseGitTags stdout).missing h
    refine List.eq_nil_iff_forall_not_mem.mpr fun t ht => ?_
    have hmem := (hrecorded.tags t).mpr ht
    rw [hnil] at hmem
    cases hmem
  · intro h
    have hlines : tagLines stdout = [] := List.map_eq_nil_iff.mp h
    unfold parseGitTags
    rw [hlines]
    rfl

/-- Of tags of one rank the one that is listed first is returned. -/
theorem parseGitTags_first {stdout : Text} {tag : Text} (hfirst : (listedTags stdout).head? = some tag)
    (hnewest : IsNewest (listedTags stdout) tag) : (parseGitTags stdout).map (·.version) = some tag := by
  have hrecorded := recorded_lines (tagLines stdout)
  have hhead := hrecorded.first.trans hfirst
  unfold parseGitTags
  cases hentries : (tagLines stdout).foldl recordTag [] with
  | nil =>
    rw [hentries] at hhead
    cases hhead
  | cons e entries =>
    rw [hentries] at hhead hrecorded
    have htag : e.tag = tag := Option.some.inj hhead
    obtain ⟨commit, hcommit⟩ := Option.ne_none_iff_exists'.mp (hrecorded.read e List.mem_cons_self)
    have hstart : newerTag none e = some ⟨e.tag, commit⟩ := by simp [newerTag, hcommit]
    rw [List.foldl_cons, hstart, foldl_newerTag_keep]
    · exact congrArg some htag
    · intro f hf
      rw [htag]
      refine rank_le_iff.mp (hnewest.2 f.tag ((hrecorded.tags f.tag).mp ?_))
      exact List.mem_map_of_mem (List.mem_cons_of_mem _ hf)

theorem listedTags_perm {stdout stdout' : Text} (h : (stdout'.splitOn '\n').Perm (stdout.splitOn '\n')) :
    (listedTags stdout').Perm (listedTags stdout) := (h.filterMap readTagLine).map _

theorem IsNewest.perm {tags tags' : List Text} (h : tags'.Perm tags) {tag : Text} (hnewest : IsNewest tags' tag) :
    IsNewest tags tag := ⟨h.subset hnewest.1, fun other hother => hnewest.2 other (h.symm.subset hother)⟩

/-- The lines of one tag may come first. -/
theorem exists_first {stdout : Text} {tag : Text} (h : tag ∈ listedTags stdout) :
    ∃ stdout' : Text, (stdout'.splitOn '\n').Perm (stdout.splitOn '\n') ∧ (listedTags stdout').head? = some tag := by
  let named (line : Text) : Bool := (readTagLine line).any fun found => found.tag = tag
  have hperm := List.filter_append_perm named (stdout.splitOn '\n')
  obtain ⟨stdout', hsplit⟩ := Pieces.exists_splitOn_perm hperm
  refine ⟨stdout', hsplit ▸ hperm, ?_⟩
  obtain ⟨found, hfound, htag⟩ := List.mem_map.mp h
  obtain ⟨line, hline, hread⟩ := List.mem_filterMap.mp hfound
  have hnamed : line ∈ (stdout.splitOn '\n').filter named := List.mem_filter.mpr ⟨hline, by simp [named, hread, htag]⟩
  unfold listedTags tagLines
  rw [hsplit, List.filterMap_append, List.map_append]
  cases hlines : (stdout.splitOn '\n').filter named with
  | nil =>
    rw [hlines] at hnamed
    cases hnamed
  | cons first rest =>
    have hmem : first ∈ (stdout.splitOn '\n').filter named := hlines ▸ List.mem_cons_self
    have hfirst : named first = true := (List.mem_filter.mp hmem).2
    simp only [named] at hfirst
    obtain ⟨l, hl, hltag⟩ := (Option.any_eq_true _ _).mp hfirst
    rw [List.filterMap_cons_some hl]
    exact congrArg some (of_decide_eq_true hltag)

/-- Every order of the lines gives the same tag, and none that was listed is of a newer release, exactly when no two
tags are the newest. The comparison is a preorder of all tags that knows every precedence but that of pre-releases. -/
theorem parseGitTags_order_free_iff (stdout : Text) :
    (((∀ stdout' : Text, (stdout'.splitOn '\n').Perm (stdout.splitOn '\n') →
          (parseGitTags stdout').map (·.version) = (parseGitTags stdout).map (·.version)) ∧
        (parseGitTags stdout = none → listedTags stdout = []) ∧
        ∀ latest, parseGitTags stdout = some latest →
          latest.version ∈ listedTags stdout ∧ (∀ tag ∈ listedTags stdout, ¬Precedes latest.version tag) ∧
            ∃ line ∈ tagLines stdout, line.tag = latest.version ∧ line.commit = latest.commit ∧
              (line.peeled = true ∨ ∀ other ∈ tagLines stdout, other.tag = latest.version → other.peeled = false)) ↔
      ∀ s t, IsNewest (listedTags stdout) s → IsNewest (listedTags stdout) t → s = t) ∧
    (∀ a, compareTagVersions a a = .eq) ∧ (∀ a b, compareTagVersions b a = (compareTagVersions a b).swap) ∧
      (∀ a b c, compareTagVersions a b ≠ .gt → compareTagVersions b c ≠ .gt → compareTagVersions a c ≠ .gt) ∧
      ∀ a b, compareTagVersions a b = .lt ↔ Precedes a b ∧ ¬EarlierPrerelease a b := by
  refine ⟨⟨?_, fun hunique => ⟨fun stdout' hperm => ?_, parseGitTags_none.mp, fun latest hlatest => ?_⟩⟩,
    fun a => ?_, fun a b => ?_, fun a b c hab hbc => ?_, fun a b => compareTagVersions_lt_iff⟩
  · rintro ⟨hsame, -⟩ s t hs ht
    have hreturned {tag : Text} (htag : IsNewest (listedTags stdout) tag) :
        (parseGitTags stdout).map (·.version) = some tag := by
      obtain ⟨stdout', hperm, hfirst⟩ := exists_first htag.1
      rw [← hsame stdout' hperm]
      exact parseGitTags_first hfirst (htag.perm (listedTags_perm hperm).symm)
    exact Option.some.inj ((hreturned hs).symm.trans (hreturned ht))
  · have htags := listedTags_perm hperm
    cases hlatest : parseGitTags stdout with
    | none =>
      rw [parseGitTags_none.mp hlatest] at htags
      rw [parseGitTags_none.mpr (List.perm_nil.mp htags)]
    | some latest =>
      cases hlatest' : parseGitTags stdout' with
      | none =>
        rw [parseGitTags_none.mp hlatest'] at htags
        rw [parseGitTags_none.mpr (List.nil_perm.mp htags)] at hlatest
        cases hlatest
      | some latest' =>
        have hnewest := (parseGitTags_newest hlatest).1
        have hnewest' := (parseGitTags_newest hlatest').1.perm htags
        exact congrArg some (hunique _ _ hnewest' hnewest)
  · obtain ⟨⟨hmem, hnewest⟩, hcommit⟩ := parseGitTags_newest hlatest
    refine ⟨hmem, fun tag htag hprecedes => ?_, hcommit⟩
    -- a later pre-release of the same version would be a second newest tag
    have hrank := (rank_le_iff.mp (hnewest tag htag)).antisymm (rank_le_of_precedes hprecedes)
    have hsecond : IsNewest (listedTags stdout) tag := by
      refine ⟨htag, fun other hother => rank_le_iff.mpr ?_⟩
      rw [hrank]
      exact rank_le_iff.mp (hnewest other hother)
    have heq := hunique _ _ hsecond ⟨hmem, hnewest⟩
    rw [heq] at hprecedes
    exact not_precedes_self _ hprecedes
  · exact (compareTagVersions_compares a a).eq_eq.mpr rfl
  · exact (compareTagVersions_compares b a).inj (Ordering.compares_swap.mpr (compareTagVersions_compares a b))
  · exact rank_le_iff.mpr ((rank_le_iff.mp hab).trans (rank_le_iff.mp hbc))

/-! ## Two pre-releases -/

def tagLine (digit : Char) (tag : String) : Text := List.replicate 40 digit ++ " refs/tags/".toList ++ tag.toList

/-- Which of two pre-releases is the newest is a matter of the order of their lines. -/
theorem prereleases_by_order :
    (parseGitTags (tagLine 'a' "v1.0-rc1" ++ '\n' :: tagLine 'b' "v1.0-rc2")).map (·.version) = some "v1.0-rc1".toList ∧
      (parseGitTags (tagLine 'b' "v1.0-rc2" ++ '\n' :: tagLine 'a' "v1.0-rc1")).map (·.version) =
        some "v1.0-rc2".toList ∧
      Precedes "v1.0-rc1".toList "v1.0-rc2".toList ∧
      compareTagVersions "v1.0-rc1".toList "v1.0-rc2".toList = .eq := by
  refine ⟨by decide +kernel, by decide +kernel, .inr (.inr ⟨?_, "rc".toList, 1, 2, ?_, ?_, by decide⟩), by decide +kernel⟩
  · have hparts : tagVersionParts "v1.0-rc1".toList = tagVersionParts "v1.0-rc2".toList := by decide +kernel
    exact congrArg numbersOf hparts
  · decide +kernel
  · decide +kernel

end Omapkg.Server.Tags
