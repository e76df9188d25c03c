import Mathlib.Data.List.Nodup
import Mathlib.Data.List.Perm.Subperm
import Mathlib.Data.List.Sort
import Mathlib.Data.String.Basic
import Mathlib.Logic.Relation
import Omapkg.Server.UpstreamRelease
/-!
# Scheduled checks

`trackedUpstreamRequests` of `src/services/pipeline/release.ts` and `checkUpstreams` of
`schedule.ts`. A run takes the first requests by their last update, which a check leaves
as it is, and reads the stored URL of each before it starts to catch errors.
-/

namespace Omapkg.Server.Schedule

open Relation
open Automatic (RequestStatus upstreamActor)
open Upstream (Normalize)

/-! ## Tables -/

structure RequestRow where
  id : String
  name : String
  upstreamUrl : String
  requestedBy : String
  status : RequestStatus
  updatedAt : Int
  deriving DecidableEq

structure Revision where
  id : String
  requestId : String
  createdAt : Int
  deriving DecidableEq

structure Build where
  id : String
  revisionId : String

inductive ReleaseChannel where
  | dev | stable | other
  deriving DecidableEq

structure Release where
  buildId : String
  channel : ReleaseChannel

/-- Revisions stand in the order of their row ids. -/
structure ScheduleState where
  requests : List RequestRow
  revisions : List Revision
  builds : List Build
  releases : List Release

/-! ## Selection -/

/-- `EXISTS (SELECT 1 FROM builds b JOIN releases … channel IN ('dev','stable'))`. -/
def isPublished (s : ScheduleState) (revision : Revision) : Bool :=
  s.builds.any fun b => b.revisionId = revision.id && s.releases.any fun r =>
    r.buildId = b.id && (r.channel = .dev || r.channel = .stable)

/-- The newest of the revisions, of equal ones the last. -/
def latest : List Revision → Option Revision
  | [] => none
  | r :: rest =>
    match latest rest with
    | none => some r
    | some found => if found.createdAt < r.createdAt then some r else some found

def publishedRevisions (s : ScheduleState) : List Revision := s.revisions.filter (isPublished s)

def latestOf (s : ScheduleState) (q : RequestRow) : Option Revision :=
  latest ((publishedRevisions s).filter fun r => r.requestId = q.id)

/-- The latest published revision of the name. -/
def latestNamed (s : ScheduleState) (name : String) : Option Revision :=
  latest ((publishedRevisions s).filter fun r => s.requests.any fun q => q.id = r.requestId && q.name = name)

/-- No newer revision of the name was published. -/
def isTracked (s : ScheduleState) (q : RequestRow) : Bool := (latestOf s q).isSome && latestOf s q = latestNamed s q.name

def tracked (s : ScheduleState) : List RequestRow := s.requests.filter (isTracked s)

/-- `ORDER BY q.updated_at ASC,q.id ASC`. -/
def Before (a b : RequestRow) : Prop := a.updatedAt < b.updatedAt ∨ a.updatedAt = b.updatedAt ∧ a.id ≤ b.id

instance : DecidableRel Before := fun _ _ => inferInstanceAs (Decidable (_ ∨ _))

def trackedUpstreamRequests (s : ScheduleState) (limit : Nat) : List RequestRow :=
  ((tracked s).insertionSort Before).take (min (max limit 1) 50)

def maxRequests : Nat := 50

/-! ## Runs -/

/-- What the statements of a check may write of these tables: a new request that has no revision, or the status of an
automatic request and the time. -/
inductive Write : ScheduleState → ScheduleState → Prop where
  | insert {s : ScheduleState} (row : RequestRow) (hid : ∀ q ∈ s.requests, q.id ≠ row.id)
      (hnew : ∀ r ∈ s.revisions, r.requestId ≠ row.id) : Write s { s with requests := s.requests ++ [row] }
  | touch {s : ScheduleState} (id : String) (status : RequestStatus) (now : Int) : Write s { s with
      requests := s.requests.map fun q =>
        if q.id = id ∧ q.requestedBy = upstreamActor ∧
            (q.status = .pending ∨ q.status = .failed ∨ q.status = .generating) then
          { q with status := status, updatedAt := now }
        else q }

section
variable (normalize : Normalize)

def Normalizes (q : RequestRow) : Prop := ∃ url, normalize q.upstreamUrl = .ok url

/-- The loop over the selected rows, with the ids of the requests that it came to. `requestFromRow` throws out of the
loop; whatever a check throws is caught. -/
inductive Checks : List RequestRow → ScheduleState → List String → ScheduleState → Prop where
  | done {s : ScheduleState} : Checks [] s [] s
  | stops {row : RequestRow} {rows : List RequestRow} {s : ScheduleState} (h : ¬Normalizes normalize row) :
      Checks (row :: rows) s [row.id] s
  | checks {row : RequestRow} {rows : List RequestRow} {s s₁ s' : ScheduleState} {ids : List String}
      (h : Normalizes normalize row) (hwrites : ReflTransGen Write s s₁) (hrest : Checks rows s₁ ids s') :
      Checks (row :: rows) s (row.id :: ids) s'

def CheckUpstreams (s : ScheduleState) (ids : List String) (s' : ScheduleState) : Prop :=
  Checks normalize (trackedUpstreamRequests s maxRequests) s ids s'

/-- Runs one after the other. -/
inductive Runs : Nat → ScheduleState → List (List String) → ScheduleState → Prop where
  | done {s : ScheduleState} : Runs 0 s [] s
  | next {n : Nat} {s s₁ s' : ScheduleState} {ids : List String} {more : List (List String)}
      (h : CheckUpstreams normalize s ids s₁) (hmore : Runs n s₁ more s') : Runs (n + 1) s (ids :: more) s'

/-- `⌈N/50⌉` runs come to every tracked request. -/
def Covered (s : ScheduleState) : Prop :=
  ∀ ids s', Runs normalize (((tracked s).length + 49) / 50) s ids s' → ∀ q ∈ tracked s, q.id ∈ ids.flatten

/-- A run comes to every request that it selected. -/
def Unhindered (s : ScheduleState) : Prop :=
  ∀ ids s', CheckUpstreams normalize s ids s' → ∀ q ∈ trackedUpstreamRequests s maxRequests, q.id ∈ ids

end

/-! ## Which requests a run comes to -/

section
variable {normalize : Normalize} {s s' : ScheduleState}

/-- When only the last URL may be bad, the loop comes to all rows, whatever the checks write. -/
theorem Checks.all {rows : List RequestRow} {ids : List String} (h : Checks normalize rows s ids s')
    (hgood : ∀ q ∈ rows.dropLast, Normalizes normalize q) : ids = rows.map (·.id) := by
  induction h with
  | done => rfl
  | @stops row rows s hbad =>
    cases rows with
    | nil => rfl
    | cons next rest => exact absurd (hgood row (by simp)) hbad
  | @checks row rows s s₁ s' ids _ _ _ ih =>
    rw [List.map_cons, ih fun q hq => hgood q ?_]
    cases rows with
    | nil => cases hq
    | cons next rest => exact List.mem_cons_of_mem _ hq

/-- A run whose checks write nothing; if it comes to all rows, only the last URL may be bad. -/
theorem exists_quiet (normalize : Normalize) (rows : List RequestRow) (s : ScheduleState) :
    ∃ ids, Checks normalize rows s ids s ∧ ids ⊆ rows.map (·.id) ∧
      ((rows.map (·.id)).Nodup → (∀ q ∈ rows, q.id ∈ ids) → ∀ q ∈ rows.dropLast, Normalizes normalize q) := by
  induction rows with
  | nil => exact ⟨[], .done, List.Subset.refl _, fun _ _ q hq => absurd hq List.not_mem_nil⟩
  | cons row rows ih =>
    by_cases hrow : Normalizes normalize row
    · obtain ⟨ids, hchecks, hsub, hall⟩ := ih
      refine ⟨row.id :: ids, .checks hrow .refl hchecks, List.cons_subset_cons _ hsub, fun hnodup hmem q hq => ?_⟩
      rw [List.map_cons, List.nodup_cons] at hnodup
      cases rows with
      | nil => cases hq
      | cons next rest =>
        rcases List.mem_cons.mp hq with rfl | hq
        · exact hrow
        · refine hall hnodup.2 (fun p hp => ?_) q hq
          rcases List.mem_cons.mp (hmem p (List.mem_cons_of_mem _ hp)) with heq | hp'
          · exact absurd (heq ▸ List.mem_map_of_mem hp) hnodup.1
          · exact hp'
    · refine ⟨[row.id], .stops hrow, by simp, fun hnodup hmem q hq => ?_⟩
      rw [List.map_cons, List.nodup_cons] at hnodup
      cases rows with
      | nil => cases hq
      | cons next rest =>
        have hnext := hmem next (by simp)
        rw [List.mem_singleton] at hnext
        exact absurd (hnext ▸ List.mem_map_of_mem List.mem_cons_self) hnodup.1

theorem sorted_perm (s : ScheduleState) : ((tracked s).insertionSort Before).Perm (tracked s) := List.perm_insertionSort _ _

theorem selected_length : (trackedUpstreamRequests s maxRequests).length ≤ 50 := by
  unfold trackedUpstreamRequests
  rw [List.length_take]
  exact (Nat.min_le_left _ _).trans (Nat.min_le_right _ _)

theorem selected_all (h : (tracked s).length ≤ 50) :
    trackedUpstreamRequests s maxRequests = (tracked s).insertionSort Before := by
  unfold trackedUpstreamRequests
  refine List.take_of_length_le ?_
  rw [List.length_insertionSort]
  exact h

theorem selected_nodup (h : (s.requests.map (·.id)).Nodup) :
    ((trackedUpstreamRequests s maxRequests).map (·.id)).Nodup := by
  have htracked : ((tracked s).map (·.id)).Nodup := h.sublist (List.filter_sublist.map _)
  have hsorted := ((sorted_perm s).map (·.id)).nodup_iff.mpr htracked
  exact hsorted.sublist ((List.take_sublist _ _).map _)

/-- Runs whose checks write nothing come to the same requests again and again. -/
theorem exists_quiet_runs (normalize : Normalize) (n : Nat) (s : ScheduleState) :
    ∃ ids, Runs normalize n s ids s ∧ ids.flatten ⊆ (trackedUpstreamRequests s maxRequests).map (·.id) := by
  induction n with
  | zero => exact ⟨[], .done, by simp⟩
  | succ n ih =>
    obtain ⟨more, hruns, hsub⟩ := ih
    obtain ⟨ids, hchecks, hids, -⟩ := exists_quiet normalize (trackedUpstreamRequests s maxRequests) s
    exact ⟨ids :: more, .next hchecks hruns, by simpa using ⟨hids, hsub⟩⟩

/-- Every request is checked in turn, and none for the failure of another, exactly when there are fifty at most and no
stored URL but that of the last one selected is bad. -/
theorem checkUpstreams_covers_iff (hids : (s.requests.map (·.id)).Nodup) :
    Covered normalize s ∧ Unhindered normalize s ↔
      (tracked s).length ≤ 50 ∧ ∀ q ∈ (trackedUpstreamRequests s maxRequests).dropLast, Normalizes normalize q := by
  constructor
  · rintro ⟨hcovered, hunhindered⟩
    constructor
    · obtain ⟨ids, hruns, hsub⟩ := exists_quiet_runs normalize (((tracked s).length + 49) / 50) s
      have hmem := hcovered ids s hruns
      have htracked : ((tracked s).map (·.id)).Nodup := hids.sublist (List.filter_sublist.map _)
      have hsubset : (tracked s).map (·.id) ⊆ (trackedUpstreamRequests s maxRequests).map (·.id) := by
        intro id hid
        obtain ⟨q, hq, rfl⟩ := List.mem_map.mp hid
        exact hsub (hmem q hq)
      have hlength := (List.subperm_of_subset htracked hsubset).length_le
      rw [List.length_map, List.length_map] at hlength
      exact hlength.trans selected_length
    · obtain ⟨ids, hchecks, -, hall⟩ := exists_quiet normalize (trackedUpstreamRequests s maxRequests) s
      exact hall (selected_nodup hids) (hunhindered ids s hchecks)
  · rintro ⟨hfew, hgood⟩
    have hrun {ids : List String} {s' : ScheduleState} (h : CheckUpstreams normalize s ids s') :
        ids = (trackedUpstreamRequests s maxRequests).map (·.id) := Checks.all h hgood
    refine ⟨fun ids s' hruns q hq => ?_, fun ids s' h q hq => ?_⟩
    · have hone : ((tracked s).length + 49) / 50 = 1 := by
        have hpos := List.length_pos_of_mem hq
        omega
      rw [hone] at hruns
      cases hruns with
      | @next _ _ s₁ _ ids more h hmore =>
        rw [hrun h, selected_all hfew, List.flatten_cons, List.mem_append]
        exact .inl (List.mem_map_of_mem ((sorted_perm s).symm.subset hq))
    · rw [hrun h]
      exact List.mem_map_of_mem hq

end

/-! ## A stored URL that is bad -/

def sampleNormalize : Normalize := fun url => if url = "http://old.test/a.git" then .error "source URL must use HTTPS" else .ok url

/-- Two published requests, and the URL of the first one to be selected. -/
def twoRequests (url : String) : ScheduleState where
  requests := [⟨"a", "app", url, "maintainer", .built, 1⟩, ⟨"b", "lib", "https://new.test/b.git", "maintainer", .built, 2⟩]
  revisions := [⟨"ra", "a", 1⟩, ⟨"rb", "b", 1⟩]
  builds := [⟨"ba", "ra"⟩, ⟨"bb", "rb"⟩]
  releases := [⟨"ba", .stable⟩, ⟨"bb", .stable⟩]

theorem twoRequests_ids (url : String) : ((twoRequests url).requests.map (·.id)).Nodup := by
  simp [twoRequests]

/-- The second request is not checked. -/
theorem bad_url_stops_the_run : ¬Unhindered sampleNormalize (twoRequests "http://old.test/a.git") := by
  intro h
  have hselected : trackedUpstreamRequests (twoRequests "http://old.test/a.git") maxRequests =
      (twoRequests "http://old.test/a.git").requests := by decide +kernel
  have hbad : ¬Normalizes sampleNormalize ⟨"a", "app", "http://old.test/a.git", "maintainer", .built, 1⟩ := by
    rintro ⟨url, hurl⟩
    simp [sampleNormalize] at hurl
  have hrun : CheckUpstreams sampleNormalize (twoRequests "http://old.test/a.git") ["a"] (twoRequests "http://old.test/a.git") := by
    unfold CheckUpstreams
    rw [hselected]
    exact .stops hbad
  have hmem := h _ _ hrun ⟨"b", "lib", "https://new.test/b.git", "maintainer", .built, 2⟩ (by rw [hselected]; simp [twoRequests])
  simp at hmem

theorem good_urls_checked :
    Covered sampleNormalize (twoRequests "https://old.test/a.git") ∧
        Unhindered sampleNormalize (twoRequests "https://old.test/a.git") ↔
      (tracked (twoRequests "https://old.test/a.git")).length ≤ 50 ∧
        ∀ q ∈ (trackedUpstreamRequests (twoRequests "https://old.test/a.git") maxRequests).dropLast,
          Normalizes sampleNormalize q :=
  checkUpstreams_covers_iff (twoRequests_ids _)

end Omapkg.Server.Schedule
