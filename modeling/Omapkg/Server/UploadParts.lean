import Mathlib.Data.Rat.Defs
import Omapkg.Server.Uploads
/-!
# The parts of an upload

The sizes that `partSize` gives to the parts of a declared size, and the
recorded parts that `completeMultipartUpload` puts together.
-/

namespace Omapkg.Server.Uploads

open Utf Prog

/-! ## Sizes -/

/-- `Math.ceil(expectedSize / UPLOAD_PART_SIZE)`. -/
def totalParts (expectedSize : Nat) : Nat := (expectedSize + uploadPartSize - 1) / uploadPartSize

def invalidPartNumber : UploadThrow := ⟨400, "Invalid upload part number"⟩

/-- `partSize` of any number of the language, `none` standing for those that are not finite. -/
def partSizeOf (expectedSize : Nat) (partNumber : Option Rat) : Except UploadThrow Nat :=
  match partNumber with
  | some q =>
    -- `Number.isSafeInteger`
    if q.den ≠ 1 ∨ q.num.natAbs > 2 ^ 53 - 1 ∨ q.num < 1 then .error invalidPartNumber
    else partSize expectedSize q.num.toNat
  | none => .error invalidPartNumber

/-- What the part of a number holds: a whole part, or of the last one what is left. -/
def partLength (expectedSize partNumber : Nat) : Nat :=
  if partNumber = totalParts expectedSize then expectedSize - (partNumber - 1) * uploadPartSize else uploadPartSize

/-- A declared size that `startMultipartUpload` takes. -/
def Declarable (size : Nat) : Prop := 1 ≤ size ∧ size ≤ maxUploadSize

theorem totalParts_bounds {size : Nat} (h : Declarable size) :
    1 ≤ totalParts size ∧ totalParts size ≤ maxUploadParts ∧ (totalParts size - 1) * uploadPartSize < size ∧
      size ≤ totalParts size * uploadPartSize := by
  obtain ⟨h1, h2⟩ := h
  simp only [totalParts, maxUploadParts, maxUploadSize, uploadPartSize] at *
  omega

theorem partSize_eq {size : Nat} (h : Declarable size) (n : Nat) :
    partSize size n = if 1 ≤ n ∧ n ≤ totalParts size then .ok (partLength size n) else .error invalidPartNumber := by
  have hmax := (totalParts_bounds h).2.1
  rw [show partSize size n = if n < 1 ∨ n > totalParts size ∨ n > maxUploadParts then .error invalidPartNumber
    else .ok (partLength size n) from rfl]
  by_cases hn : 1 ≤ n ∧ n ≤ totalParts size
  · rw [if_neg (by omega), if_pos hn]
  · rw [if_pos (by omega), if_neg hn]

theorem partLength_bounds {size n : Nat} (h : Declarable size) :
    0 < partLength size n ∧ partLength size n ≤ uploadPartSize ∧ (n ≠ totalParts size → partLength size n = uploadPartSize) := by
  obtain ⟨-, -, hlow, hhigh⟩ := totalParts_bounds h
  have hpos : 0 < uploadPartSize := by decide
  unfold partLength
  split
  · rename_i hn
    subst hn
    rw [Nat.sub_mul, Nat.one_mul] at hlow ⊢
    exact ⟨by omega, by omega, fun hne => absurd rfl hne⟩
  · exact ⟨hpos, Nat.le_refl _, fun _ => rfl⟩

/-- All parts but the last are whole. -/
theorem partLength_sum {size : Nat} (h : Declarable size) :
    ((List.range' 1 (totalParts size)).map (partLength size)).sum = size := by
  obtain ⟨hone, -, hlow, -⟩ := totalParts_bounds h
  obtain ⟨t, ht⟩ : ∃ t, totalParts size = t + 1 := ⟨totalParts size - 1, by omega⟩
  have hwhole : (List.range' 1 t).map (partLength size) = List.replicate t uploadPartSize := by
    rw [List.eq_replicate_iff]
    refine ⟨by rw [List.length_map, List.length_range'], fun k hk => ?_⟩
    obtain ⟨n, hn, rfl⟩ := List.mem_map.mp hk
    have hlt := List.mem_range'_1.mp hn
    exact (partLength_bounds h).2.2 (by omega)
  have hlast : partLength size (1 + t) = size - t * uploadPartSize := by
    rw [partLength, if_pos (by omega), Nat.add_sub_cancel_left]
  rw [ht, Nat.add_sub_cancel] at hlow
  rw [ht, List.range'_1_concat, List.map_append, List.sum_append, hwhole, List.sum_replicate_nat, List.map_singleton,
    List.sum_singleton, hlast]
  omega

/-! ## Recorded parts -/

/-- The numbers and sizes recorded for an upload, in the order of the table. -/
def recordedParts (uploadId : String) (s : UploadState) : List (Nat × Nat) :=
  (s.parts.filter (·.uploadId = uploadId)).map fun p => (p.partNumber, p.size)

/-- Every part of a declared size once, by number. -/
def allParts (size : Nat) : List (Nat × Nat) := (List.range' 1 (totalParts size)).map fun n => (n, partLength size n)

theorem getParts_recorded (uploadId : String) (s : UploadState) :
    ((getParts uploadId s).map fun p => (p.partNumber, p.size)).Perm (recordedParts uploadId s) :=
  (List.mergeSort_perm _ _).map _

theorem getParts_sorted (uploadId : String) (s : UploadState) :
    (getParts uploadId s).Pairwise fun p q => p.partNumber ≤ q.partNumber := by
  refine (List.pairwise_mergeSort (fun a b c hab hbc => ?_) (fun a b => ?_) _).imp fun h => of_decide_eq_true h
  · simp only [decide_eq_true_eq] at hab hbc ⊢
    exact Nat.le_trans hab hbc
  · simp only [Bool.or_eq_true, decide_eq_true_eq]
    exact Nat.le_total _ _

theorem allParts_pairwise (size : Nat) : (allParts size).Pairwise fun a b => a.1 < b.1 :=
  List.pairwise_map.mpr List.pairwise_lt_range'

/-- The parts pass both checks when they are all of the upload's, by number. -/
theorem checked_iff {size : Nat} (h : Declarable size) {row : UploadRow} (hrow : row.expectedSize = size)
    (parts : List UploadPartRow) :
    (contiguous parts (totalParts size) = true ∧ partSizes row parts = true) ↔
      parts.map (fun p => (p.partNumber, p.size)) = allParts size := by
  have hsizes : partSizes row parts = true ↔
      ∀ p ∈ parts, (1 ≤ p.partNumber ∧ p.partNumber ≤ totalParts size) ∧ p.size = partLength size p.partNumber := by
    unfold partSizes
    rw [List.all_eq_true]
    refine forall₂_congr fun p _ => ?_
    rw [hrow, partSize_eq h]
    by_cases hp : 1 ≤ p.partNumber ∧ p.partNumber ≤ totalParts size
    · simp [hp]
    · simp [hp]
  rw [hsizes]
  unfold contiguous
  rw [decide_eq_true_eq]
  constructor
  · rintro ⟨hnumbers, hp⟩
    rw [allParts, ← hnumbers, List.map_map]
    refine List.map_congr_left fun p hmem => ?_
    rw [(hp p hmem).2]
    rfl
  · intro heq
    have hnumbers : parts.map (·.partNumber) = List.range' 1 (totalParts size) := by
      have := congrArg (List.map Prod.fst) heq
      rw [allParts, List.map_map, List.map_map] at this
      exact this.trans (List.map_id _)
    refine ⟨hnumbers, fun p hmem => ?_⟩
    have hpair : (p.partNumber, p.size) ∈ allParts size := heq ▸ List.mem_map_of_mem hmem
    obtain ⟨n, hn, hpn⟩ := List.mem_map.mp hpair
    obtain ⟨rfl, hsize⟩ := Prod.mk.inj hpn
    have hrange := List.mem_range'_1.mp hn
    exact ⟨by omega, hsize.symm⟩

/-- In whatever order they were recorded. -/
theorem getParts_checked_iff {size : Nat} (h : Declarable size) {row : UploadRow} (hrow : row.expectedSize = size)
    (uploadId : String) (s : UploadState) :
    (contiguous (getParts uploadId s) (totalParts size) = true ∧ partSizes row (getParts uploadId s) = true) ↔
      (recordedParts uploadId s).Perm (allParts size) := by
  rw [checked_iff h hrow]
  refine ⟨fun heq => heq ▸ (getParts_recorded uploadId s).symm, fun hperm => ?_⟩
  have hperm' := (getParts_recorded uploadId s).trans hperm
  have hall := allParts_pairwise size
  refine hperm'.eq_of_pairwise ?_
    (List.pairwise_map.mpr (getParts_sorted uploadId s)) (hall.imp Nat.le_of_lt : List.Pairwise (fun a b => a.1 ≤ b.1) _)
  intro a b ha hb hab hba
  -- a number has one part
  obtain ⟨m, -, rfl⟩ := List.mem_map.mp (hperm'.subset ha)
  obtain ⟨n, -, rfl⟩ := List.mem_map.mp hb
  obtain rfl : m = n := Nat.le_antisymm hab hba
  rfl

/-! ## Completion -/

/-- A request to complete finds its upload active under its lease. -/
structure Completing (workerId buildId uploadId token : String) (row : UploadRow) (build : UploadBuild) (s : UploadState) :
    Prop where
  leased : (requireWorkerLease buildId workerId token).run s = (.ok build, s)
  active : ∃ rowBuild, getUpload buildId uploadId workerId s = some (row, rowBuild) ∧
    assertActiveUpload row rowBuild workerId build token = .ok ()

section
variable (sha256 : Bytes → Hash.Digest)

theorem completeMultipartUpload_run {me : Nat} {workerId buildId uploadId token : String} {row : UploadRow}
    {build : UploadBuild} {s : UploadState} (h : Completing workerId buildId uploadId token row build s) :
    (completeMultipartUpload sha256 me workerId buildId uploadId token).run s =
      if contiguous (getParts uploadId s) (totalParts row.expectedSize) = false then
        (giveUp false row ⟨409, "Upload is missing parts"⟩).run s
      else if partSizes row (getParts uploadId s) = false then
        (giveUp false row ⟨409, "Upload part sizes do not match declaration"⟩).run s
      else (assembleUpload sha256 me row workerId token build (getParts uploadId s)).run s := by
  obtain ⟨hlease, rowBuild, hrow, hactive⟩ := h
  obtain ⟨u, htoken, -⟩ := run_ofExcept_bind_ok.mp hlease
  have hguards : row.status = .active ∧ row.leaseToken = token ∧ row.attempt = build.attempt := by
    unfold assertActiveUpload at hactive
    split at hactive
    · cases hactive
    · rename_i hfenced
      simp only [not_or, ne_eq, not_not] at hfenced
      exact ⟨hfenced.1, hfenced.2.1, hfenced.2.2.1⟩
  have hopen : row.status ≠ .completed := by
    rw [hguards.1]
    decide
  unfold completeMultipartUpload
  rw [htoken, ofExcept_ok_bind, run_read_bind, hrow]
  simp only
  rw [if_neg (not_not.mpr hguards.2.1)]
  refine (run_bind (requireWorkerLease buildId workerId token) _ s).trans ?_
  rw [hlease]
  simp only
  rw [if_neg (not_not.mpr hguards.2.2), if_neg hopen, if_neg (not_not.mpr hguards.1), hactive, ofExcept_ok_bind,
    run_read_bind, totalParts]
  split_ifs <;> rfl

/-- An upload that is given up has no artifact. -/
theorem giveUp_run (own : Bool) (row : UploadRow) (cause : UploadThrow) (s : UploadState) (a : ArtifactReference) :
    ((giveUp own row cause : Prog UploadState UploadThrow ArtifactReference).run s).1 ≠ .ok a := by
  intro h
  obtain ⟨_, _, -, hrest⟩ := run_bind_ok.mp (Prod.ext h rfl)
  obtain ⟨_, _, -, hfail⟩ := run_bind_ok.mp hrest
  cases (Prod.mk.inj hfail).1

/-- What `partSize` and `completeMultipartUpload` do with a declared size. -/
structure PartsExact (size : Nat) : Prop where
  sized : ∀ n : Nat, 1 ≤ n → n ≤ totalParts size → ∃ k, partSizeOf size (some (n : Rat)) = .ok k ∧ 0 < k ∧ k ≤ uploadPartSize ∧
    (n ≠ totalParts size → k = uploadPartSize)
  sum : ((List.range' 1 (totalParts size)).map fun n : Nat => (partSizeOf size (some (n : Rat))).toOption.getD 0).sum = size
  others : ∀ q, (∀ n : Nat, 1 ≤ n → n ≤ totalParts size → q ≠ some (n : Rat)) → partSizeOf size q = .error invalidPartNumber
  completes : ∀ me workerId buildId uploadId token row build s, row.expectedSize = size →
    Completing workerId buildId uploadId token row build s → (recordedParts uploadId s).Perm (allParts size) →
    (completeMultipartUpload sha256 me workerId buildId uploadId token).run s =
      (assembleUpload sha256 me row workerId token build (getParts uploadId s)).run s
  refuses : ∀ me workerId buildId uploadId token row build s, row.expectedSize = size →
    Completing workerId buildId uploadId token row build s → ¬(recordedParts uploadId s).Perm (allParts size) →
    ∃ cause, (completeMultipartUpload sha256 me workerId buildId uploadId token).run s = (giveUp false row cause).run s ∧
      ∀ a, ((completeMultipartUpload sha256 me workerId buildId uploadId token).run s).1 ≠ .ok a

theorem partSizeOf_part {size n : Nat} (h : Declarable size) (h1 : 1 ≤ n) (hn : n ≤ totalParts size) :
    partSizeOf size (some (n : Rat)) = .ok (partLength size n) := by
  have hmax := (totalParts_bounds h).2.1
  have hsafe : n ≤ 2 ^ 53 - 1 := Nat.le_trans (Nat.le_trans hn hmax) (by decide)
  have hadmitted : ¬((n : Rat).den ≠ 1 ∨ (n : Rat).num.natAbs > 2 ^ 53 - 1 ∨ (n : Rat).num < 1) := by
    rw [Rat.den_natCast, Rat.num_natCast, Int.natAbs_natCast]
    omega
  rw [partSizeOf, if_neg hadmitted, Rat.num_natCast, Int.toNat_natCast, partSize_eq h, if_pos ⟨h1, hn⟩]

theorem partSizeOf_other {size : Nat} (h : Declarable size) {q : Option Rat}
    (hq : ∀ n : Nat, 1 ≤ n → n ≤ totalParts size → q ≠ some (n : Rat)) : partSizeOf size q = .error invalidPartNumber := by
  unfold partSizeOf
  cases q with
  | none => rfl
  | some q =>
    simp only
    split
    · rfl
    · rename_i hsafe
      have hint : q = (q.num.toNat : Rat) := by
        have hnum : ((q.num.toNat : Int) : Rat) = q := by
          rw [Int.toNat_of_nonneg (by omega)]
          exact (Rat.den_eq_one_iff q).mp (by omega)
        exact_mod_cast hnum.symm
      rw [partSize_eq h, if_neg fun hn => hq _ hn.1 hn.2 (congrArg some hint)]

theorem partsExact (size : Nat) (h : Declarable size) : PartsExact sha256 size where
  sized n h1 hn := by
    obtain ⟨hpos, hmax, hwhole⟩ := partLength_bounds (n := n) h
    exact ⟨_, partSizeOf_part h h1 hn, hpos, hmax, hwhole⟩
  sum := by
    refine Eq.trans (congrArg List.sum (List.map_congr_left fun n hn => ?_)) (partLength_sum h)
    have hrange := List.mem_range'_1.mp hn
    rw [partSizeOf_part h hrange.1 (by omega)]
    rfl
  others _ := partSizeOf_other h
  completes me workerId buildId uploadId token row build s hrow hcompleting hperm := by
    subst hrow
    obtain ⟨hcontiguous, hsizes⟩ := (getParts_checked_iff h rfl uploadId s).mpr hperm
    rw [completeMultipartUpload_run sha256 hcompleting, hcontiguous, hsizes]
    rfl
  refuses me workerId buildId uploadId token row build s hrow hcompleting hperm := by
    subst hrow
    have hrun : (completeMultipartUpload sha256 me _ _ _ _).run s = _ := completeMultipartUpload_run sha256 hcompleting
    split at hrun
    · exact ⟨_, hrun, fun a => hrun ▸ giveUp_run _ _ _ _ a⟩
    · split at hrun
      · exact ⟨_, hrun, fun a => hrun ▸ giveUp_run _ _ _ _ a⟩
      · rename_i hcontiguous hsizes
        rw [Bool.not_eq_false] at hcontiguous hsizes
        exact absurd ((getParts_checked_iff h rfl uploadId s).mp ⟨hcontiguous, hsizes⟩) hperm

end

/-! ## Two parts, the second first -/

def twoPartBuild : UploadBuild := ⟨"b", some "w", some "t", some 2000, 1, .leased, .binary, none, none, none, none, none⟩

def twoPartUpload : UploadRow :=
  ⟨⟨"u", "b", "w", 1, "t", "a.pkg.tar.zst", "key", 0, uploadPartSize + 1, "", 500⟩, .active, none, none, none⟩

/-- A row of a part, and of another upload's. -/
def twoPartState : UploadState where
  clock := 1000
  builds := [twoPartBuild]
  artifacts := []
  uploads := [twoPartUpload]
  parts := [⟨"u", 2, "", 1, "e2", 600⟩, ⟨"v", 1, "", 3, "e", 600⟩, ⟨"u", 1, "", uploadPartSize, "e1", 700⟩]
  bucket := ⟨fun _ => none, []⟩
  admits _ _ := true
  storage := .works
  database := .works
  removed := 0

theorem twoPart_completing : Completing "w" "b" "u" "t" twoPartUpload twoPartBuild twoPartState :=
  ⟨rfl, twoPartBuild, rfl, rfl⟩

theorem twoPart_full : (recordedParts "u" twoPartState).Perm (allParts (uploadPartSize + 1)) := by
  rw [show recordedParts "u" twoPartState = [(2, 1), (1, uploadPartSize)] by decide,
    show allParts (uploadPartSize + 1) = [(1, uploadPartSize), (2, 1)] by decide]
  exact .swap _ _ _

theorem twoPart_completes :
    (completeMultipartUpload anyHash 0 "w" "b" "u" "t").run twoPartState =
      (assembleUpload anyHash 0 twoPartUpload "w" "t" twoPartBuild (getParts "u" twoPartState)).run twoPartState :=
  (partsExact anyHash (uploadPartSize + 1) ⟨by decide, by decide⟩).completes 0 "w" "b" "u" "t" twoPartUpload twoPartBuild
    twoPartState rfl twoPart_completing twoPart_full

end Omapkg.Server.Uploads
