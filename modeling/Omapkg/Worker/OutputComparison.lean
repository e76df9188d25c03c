import Mathlib.Data.List.Nodup
import Omapkg.Lib.Fallible
import Omapkg.Lib.Mismatch
import Omapkg.Worker.Reproducibility
/-!
# The outputs of two builds

`CompareReproducibilityOutputs` of `src/worker/reproducibility.go`: two sets of outputs by
their names, and the bytes of files of one name, a chunk at a time. Where the sizes and the
digests are those of the files, no difference is found exactly where the sets are the same
(`compareReproducibilityOutputs_exact`).
-/

namespace Omapkg.Worker

open Utf Omapkg.Client

/-! ## Files -/

/-- A file as it is read: its bytes, and an error that reading meets instead of their end. -/
structure OpenFile where
  bytes : Bytes
  fault : Option GoError

/-- Why a read fills less than the chunk. -/
inductive ReadEnd where
  | eof
  | unexpectedEOF
  | fault (cause : GoError)

/-- `io.ReadFull`: what is read, and whether it ended early. -/
def readFull (size : Nat) (file : OpenFile) : Bytes × Option ReadEnd :=
  let chunk := file.bytes.take size
  if chunk.length = size then (chunk, none)
  else
    match file.fault with
    | some cause => (chunk, some (.fault cause))
    | none => (chunk, some (if chunk = [] then .eof else .unexpectedEOF))

def OpenFile.rest (size : Nat) (file : OpenFile) : OpenFile := { file with bytes := file.bytes.drop size }

def ReadEnd.isEnd : ReadEnd → Bool
  | eof | unexpectedEOF => true
  | fault _ => false

def chunkSize : Nat := 1 <<< 20

theorem chunkSize_pos : 0 < chunkSize := by decide

theorem readFull_whole {size : Nat} {file : OpenFile} (h : (readFull size file).2 = none) :
    size ≤ file.bytes.length := by
  unfold readFull at h
  dsimp only at h
  split at h
  · rename_i hlen
    rw [List.length_take] at hlen
    omega
  · split at h <;> cases h

/-- How the loop ends once a chunk was read from both, where it does. An end of either file comes before a fault. -/
def readEnds (offset : Nat) : Option ReadEnd → Option ReadEnd → Option (Except GoError (Nat × Bool))
  | none, none => none
  | left, right =>
    if left.any ReadEnd.isEnd || right.any ReadEnd.isEnd then some (.ok (offset, false))
    else
      match left, right with
      | some (.fault cause), _ | _, some (.fault cause) => some (.error cause)
      | _, _ => some (.ok (offset, false))

theorem readEnds_none {offset : Nat} {left right : Option ReadEnd} (h : readEnds offset left right = none) : left = none := by
  rcases left with _ | _ | _ | _ <;> rcases right with _ | _ | _ | _ <;> first | rfl | cases h

/-- The loop of `firstDifferentByte`. -/
def firstDifferentFrom (left right : OpenFile) (offset : Nat) : Except GoError (Nat × Bool) :=
  let leftRead := readFull chunkSize left
  let rightRead := readFull chunkSize right
  let limit := min leftRead.1.length rightRead.1.length
  match Mismatch.first leftRead.1 rightRead.1 with
  | some index => .ok (offset + index, true)
  | none =>
    if leftRead.1.length ≠ rightRead.1.length then .ok (offset + limit, true)
    else
      match _h : readEnds (offset + limit) leftRead.2 rightRead.2 with
      | some answer => answer
      | none => firstDifferentFrom (left.rest chunkSize) (right.rest chunkSize) (offset + limit)
termination_by left.bytes.length
decreasing_by
  have hpos := chunkSize_pos
  have hwhole := readFull_whole (readEnds_none _h)
  simp only [OpenFile.rest, List.length_drop]
  omega

/-- Opens a path. -/
abbrev Opens := String → Except GoError OpenFile

def firstDifferentByte (opens : Opens) (primary secondary : String) : Except GoError (Nat × Bool) := do
  let left ← opens primary
  let right ← opens secondary
  firstDifferentFrom left right 0

/-! ## Outputs -/

/-- An output with its file. -/
structure BuildOutput extends ReproducibilityOutput where
  path : String

inductive DifferenceReason where
  | missingPrimaryOutput
  | missingSecondaryOutput
  | sizeMismatch
  | byteMismatch
  | sha256Mismatch
  deriving DecidableEq

structure ReproducibilityDifference where
  filename : String
  reason : DifferenceReason
  primarySize : Nat
  secondarySize : Nat
  primarySHA256 : Option Hash.Digest
  secondarySHA256 : Option Hash.Digest
  firstByte : Nat

/-- `left[name]`. -/
def outputOf (outputs : List BuildOutput) (name : String) : Option BuildOutput :=
  outputs.find? fun output => output.filename = name

/-- The first file name that was seen before. -/
def duplicateOutput (seen : List String) : List BuildOutput → Option String
  | [] => none
  | output :: outputs =>
    if output.filename ∈ seen then some output.filename else duplicateOutput (output.filename :: seen) outputs

def outputNames (primary secondary : List BuildOutput) : List String :=
  let left := primary.map (·.filename)
  (left ++ (secondary.map (·.filename)).filter fun name => name ∉ left).mergeSort fun a b => decide (a ≤ b)

/-- What two outputs of one name differ in. -/
def compareOutput (opens : Opens) (first second : BuildOutput) : Except GoError (Option ReproducibilityDifference) :=
  let difference (reason : DifferenceReason) (firstByte : Nat) : ReproducibilityDifference :=
    ⟨first.filename, reason, first.size, second.size, some first.sha256, some second.sha256, firstByte⟩
  if first.size ≠ second.size then .ok (some (difference .sizeMismatch 0))
  else
    match firstDifferentByte opens first.path second.path with
    | .error cause => .error (.wrap ("compare " ++ first.filename) cause)
    | .ok (offset, true) => .ok (some (difference .byteMismatch offset))
    | .ok (_, false) =>
      if first.sha256 ≠ second.sha256 then .ok (some (difference .sha256Mismatch 0)) else .ok none

def compareName (opens : Opens) (primary secondary : List BuildOutput) (name : String) :
    Except GoError (Option ReproducibilityDifference) :=
  match outputOf primary name, outputOf secondary name with
  | some first, some second => compareOutput opens first second
  | none, some second => .ok (some ⟨name, .missingPrimaryOutput, 0, second.size, none, some second.sha256, 0⟩)
  | some first, none => .ok (some ⟨name, .missingSecondaryOutput, first.size, 0, some first.sha256, none, 0⟩)
  | none, none => .ok none

def compareReproducibilityOutputs (opens : Opens) (primary secondary : List BuildOutput) :
    Except GoError (List ReproducibilityDifference) :=
  match duplicateOutput [] primary, duplicateOutput [] secondary with
  | some name, _ => .error (.errorf "duplicate primary output %q" [name])
  | none, some name => .error (.errorf "duplicate secondary output %q" [name])
  | none, none => ((outputNames primary secondary).mapM (compareName opens primary secondary)).map (·.filterMap id)

/-! ## Bytes -/

theorem readFull_bytes (size : Nat) (bytes : Bytes) : readFull size ⟨bytes, none⟩ =
    (bytes.take size, if (bytes.take size).length = size then none
      else some (if bytes.take size = [] then .eof else .unexpectedEOF)) := by
  unfold readFull
  dsimp only
  split <;> rfl

/-- What the loop answers for two files that are read to their ends. -/
def Answered (offset : Nat) (xs ys : Bytes) (answer : Nat × Bool) : Prop :=
  (xs = ys ∧ answer = (offset + xs.length, false)) ∨ ∃ k, answer = (offset + k, true) ∧ Mismatch.Least xs ys k

/-- A chunk that is not whole is the rest of its file. -/
theorem whole_of_short {size : Nat} {bytes : Bytes} (h : (bytes.take size).length ≠ size) : bytes.take size = bytes := by
  rw [List.length_take] at h
  exact List.take_of_length_le (by omega)

/-- An answer for what is behind a chunk that both files have. -/
theorem Answered.behind {offset n : Nat} {xs ys : Bytes} {answer : Nat × Bool} (h : xs.take n = ys.take n)
    (hlen : (xs.take n).length = n) (ha : Answered (offset + n) (xs.drop n) (ys.drop n) answer) :
    Answered offset xs ys answer := by
  rcases ha with ⟨heq, rfl⟩ | ⟨k, rfl, hleast⟩
  · refine .inl ⟨?_, ?_⟩
    · rw [← List.take_append_drop n xs, ← List.take_append_drop n ys, h, heq]
    · rw [List.length_take] at hlen
      rw [List.length_drop, Nat.add_assoc, Nat.add_sub_of_le (by omega)]
  · exact .inr ⟨n + k, by rw [Nat.add_assoc], hleast.behind h⟩

theorem firstDifferentFrom_answered (xs ys : Bytes) (offset : Nat) :
    ∃ answer, firstDifferentFrom ⟨xs, none⟩ ⟨ys, none⟩ offset = .ok answer ∧ Answered offset xs ys answer := by
  induction hn : xs.length using Nat.strong_induction_on generalizing xs ys offset with
  | _ n ih =>
    rw [firstDifferentFrom]
    simp only [readFull_bytes]
    cases hfirst : Mismatch.first (xs.take chunkSize) (ys.take chunkSize) with
    | some index => exact ⟨_, rfl, .inr ⟨index, rfl, Mismatch.least_of_first hfirst⟩⟩
    | none =>
      dsimp only
      by_cases hlen : (xs.take chunkSize).length = (ys.take chunkSize).length
      · rw [if_neg (not_not.mpr hlen)]
        have hsame := Mismatch.eq_of_first_none hfirst hlen
        by_cases hwhole : (xs.take chunkSize).length = chunkSize
        · -- both chunks are whole, and the loop goes on
          have hlt : (xs.drop chunkSize).length < n := by
            have hpos := chunkSize_pos
            rw [List.length_take] at hwhole
            rw [List.length_drop, hn]
            omega
          obtain ⟨answer, heq, hanswered⟩ := ih _ hlt (xs.drop chunkSize) (ys.drop chunkSize) (offset + chunkSize) rfl
          refine ⟨answer, ?_, hanswered.behind hsame hwhole⟩
          split
          · rename_i hends
            rw [readFull_bytes, readFull_bytes, if_pos hwhole, if_pos (hlen ▸ hwhole)] at hends
            cases hends
          · rw [← hlen, hwhole, Nat.min_self]
            exact heq
        · -- both files have come to their ends
          have hwhole' : (ys.take chunkSize).length ≠ chunkSize := hlen ▸ hwhole
          have heq : xs = ys := by rw [← whole_of_short hwhole, ← whole_of_short hwhole', hsame]
          subst heq
          refine ⟨(offset + xs.length, false), ?_, .inl ⟨rfl, rfl⟩⟩
          split
          · rename_i hends
            rw [readFull_bytes, if_neg hwhole, Nat.min_self, whole_of_short hwhole] at hends
            split at hends
            · cases hends
              rfl
            · cases hends
              rfl
          · rename_i hends
            have hnone := readEnds_none hends
            rw [readFull_bytes, if_neg hwhole] at hnone
            cases hnone
      · rw [if_pos hlen]
        exact ⟨_, rfl, .inr ⟨_, rfl, Mismatch.least_of_length hfirst hlen⟩⟩

/-- Two files of any lengths: their length where they are equal, the least offset at which they differ where not. -/
theorem firstDifferentByte_answers {opens : Opens} {primary secondary : String} {xs ys : Bytes}
    (hx : opens primary = .ok ⟨xs, none⟩) (hy : opens secondary = .ok ⟨ys, none⟩) :
    ∃ answer, firstDifferentByte opens primary secondary = .ok answer ∧ Answered 0 xs ys answer := by
  obtain ⟨answer, heq, hanswered⟩ := firstDifferentFrom_answered xs ys 0
  refine ⟨answer, ?_, hanswered⟩
  rw [firstDifferentByte, hx, hy]
  exact heq

/-! ## Sets of outputs -/

/-- The recorded size and digest of an output are those of its file. -/
structure Recorded (sha256 : Bytes → Hash.Digest) (opens : Opens) (output : BuildOutput) (bytes : Bytes) : Prop where
  file : opens output.path = .ok ⟨bytes, none⟩
  size : output.size = bytes.length
  sha256 : output.sha256 = sha256 bytes

/-- A set of outputs has a file of a name with contents. -/
def HasFile (opens : Opens) (outputs : List BuildOutput) (name : String) (bytes : Bytes) : Prop :=
  ∃ output ∈ outputs, output.filename = name ∧ opens output.path = .ok ⟨bytes, none⟩

theorem duplicateOutput_none {seen : List String} {outputs : List BuildOutput}
    (hn : (outputs.map (·.filename)).Nodup) (hs : ∀ output ∈ outputs, output.filename ∉ seen) :
    duplicateOutput seen outputs = none := by
  induction outputs generalizing seen with
  | nil => rfl
  | cons output outputs ih =>
    rw [List.map_cons, List.nodup_cons] at hn
    rw [List.forall_mem_cons] at hs
    rw [duplicateOutput, if_neg hs.1]
    refine ih hn.2 fun other hother hmem => ?_
    rcases List.mem_cons.mp hmem with heq | hmem
    · exact hn.1 (heq ▸ List.mem_map_of_mem hother)
    · exact hs.2 other hother hmem

theorem outputOf_some {outputs : List BuildOutput} {name : String} {output : BuildOutput}
    (h : outputOf outputs name = some output) : output ∈ outputs ∧ output.filename = name :=
  ⟨List.mem_of_find?_eq_some h, by simpa using List.find?_some h⟩

theorem outputOf_none {outputs : List BuildOutput} {name : String} (h : outputOf outputs name = none) :
    ∀ output ∈ outputs, output.filename ≠ name := by
  intro output hmem
  have := List.find?_eq_none.mp h output hmem
  simpa using this

theorem mem_outputNames {primary secondary : List BuildOutput} {name : String} :
    name ∈ outputNames primary secondary ↔ name ∈ primary.map (·.filename) ∨ name ∈ secondary.map (·.filename) := by
  unfold outputNames
  dsimp only
  rw [List.mem_mergeSort, List.mem_append, List.mem_filter, decide_eq_true_eq]
  tauto

section
variable {sha256 : Bytes → Hash.Digest} {opens : Opens} {primary secondary : List BuildOutput}

/-- Two outputs of one name: nothing for equal bytes, and the least offset for other bytes of one length. -/
theorem compareOutput_recorded {first second : BuildOutput} {xs ys : Bytes} (hx : Recorded sha256 opens first xs)
    (hy : Recorded sha256 opens second ys) :
    ∃ difference, compareOutput opens first second = .ok difference ∧ (difference = none ↔ xs = ys) ∧
      ∀ d ∈ difference, d.filename = first.filename ∧
        (d.reason = .byteMismatch → Mismatch.Least xs ys d.firstByte) := by
  unfold compareOutput
  dsimp only
  by_cases hsize : first.size = second.size
  · rw [if_neg (not_not.mpr hsize)]
    obtain ⟨answer, heq, hanswered⟩ := firstDifferentByte_answers hx.file hy.file
    rw [heq]
    rcases hanswered with ⟨rfl, rfl⟩ | ⟨k, rfl, hleast⟩
    · dsimp only
      rw [if_neg (by rw [hx.sha256, hy.sha256]; simp)]
      exact ⟨none, rfl, iff_of_true rfl rfl, by simp⟩
    · refine ⟨_, rfl, iff_of_false (by simp) ?_, ?_⟩
      · rintro rfl
        exact hleast.1 rfl
      · rintro d ⟨⟩
        exact ⟨rfl, fun _ => by simpa using hleast⟩
  · rw [if_pos hsize]
    refine ⟨_, rfl, iff_of_false (by simp) ?_, ?_⟩
    · rintro rfl
      exact hsize (hx.size.trans hy.size.symm)
    · rintro d ⟨⟩
      exact ⟨rfl, fun h => by cases h⟩

/-- One name: nothing is reported where both sets have it with the same contents. -/
theorem compareName_recorded (hp : (primary.map (·.filename)).Nodup) (hs : (secondary.map (·.filename)).Nodup)
    (hrecorded : ∀ output ∈ primary ++ secondary, ∃ bytes, Recorded sha256 opens output bytes) (name : String) :
    ∃ difference, compareName opens primary secondary name = .ok difference ∧
      (difference = none ↔ ∀ bytes, HasFile opens primary name bytes ↔ HasFile opens secondary name bytes) ∧
      ∀ d ∈ difference, d.filename = name ∧ (d.reason = .byteMismatch →
        ∃ xs ys, HasFile opens primary name xs ∧ HasFile opens secondary name ys ∧ Mismatch.Least xs ys d.firstByte) := by
  have hfile {outputs : List BuildOutput} (hn : (outputs.map (·.filename)).Nodup) {output : BuildOutput}
      (hmem : output ∈ outputs) (hname : output.filename = name) {bytes : Bytes} (hr : Recorded sha256 opens output bytes)
      (bytes' : Bytes) : HasFile opens outputs name bytes' ↔ bytes' = bytes := by
    constructor
    · rintro ⟨other, hother, hsame, hopen⟩
      rw [List.inj_on_of_nodup_map hn hother hmem (hsame.trans hname.symm), hr.file] at hopen
      cases hopen
      rfl
    · rintro rfl
      exact ⟨output, hmem, hname, hr.file⟩
  have hnone {outputs : List BuildOutput} (h : outputOf outputs name = none) (bytes : Bytes) :
      ¬HasFile opens outputs name bytes := fun ⟨output, hmem, hname, _⟩ => outputOf_none h output hmem hname
  unfold compareName
  cases hleft : outputOf primary name with
  | none =>
    cases hright : outputOf secondary name with
    | none => exact ⟨none, rfl, iff_of_true rfl fun bytes => iff_of_false (hnone hleft bytes) (hnone hright bytes), by simp⟩
    | some second =>
      obtain ⟨hmem, hname⟩ := outputOf_some hright
      obtain ⟨ys, hy⟩ := hrecorded second (List.mem_append_right _ hmem)
      refine ⟨_, rfl, iff_of_false (by simp) fun h => ?_, ?_⟩
      · exact hnone hleft ys ((h ys).mpr ((hfile hs hmem hname hy ys).mpr rfl))
      · rintro d ⟨⟩
        exact ⟨rfl, fun h => by cases h⟩
  | some first =>
    obtain ⟨hmem, hname⟩ := outputOf_some hleft
    obtain ⟨xs, hx⟩ := hrecorded first (List.mem_append_left _ hmem)
    cases hright : outputOf secondary name with
    | none =>
      refine ⟨_, rfl, iff_of_false (by simp) fun h => ?_, ?_⟩
      · exact hnone hright xs ((h xs).mp ((hfile hp hmem hname hx xs).mpr rfl))
      · rintro d ⟨⟩
        exact ⟨rfl, fun h => by cases h⟩
    | some second =>
      obtain ⟨hmem', hname'⟩ := outputOf_some hright
      obtain ⟨ys, hy⟩ := hrecorded second (List.mem_append_right _ hmem')
      obtain ⟨difference, heq, hnothing, hreported⟩ := compareOutput_recorded hx hy
      refine ⟨difference, heq, hnothing.trans ⟨?_, fun h => ?_⟩, fun d hd => ?_⟩
      · rintro rfl bytes
        rw [hfile hp hmem hname hx, hfile hs hmem' hname' hy]
      · exact (hfile hs hmem' hname' hy xs).mp ((h xs).mp ((hfile hp hmem hname hx xs).mpr rfl))
      · obtain ⟨hsame, hleast⟩ := hreported d hd
        exact ⟨hsame.trans hname, fun hreason => ⟨xs, ys, (hfile hp hmem hname hx xs).mpr rfl,
          (hfile hs hmem' hname' hy ys).mpr rfl, hleast hreason⟩⟩

end

/-- Two sets of outputs as they were recorded: nothing is reported exactly where they have the same names with the
same bytes, and a byte that is reported is the first that differs, as it is of any two files. -/
theorem compareReproducibilityOutputs_exact {sha256 : Bytes → Hash.Digest} {opens : Opens}
    {primary secondary : List BuildOutput} (hp : (primary.map (·.filename)).Nodup)
    (hs : (secondary.map (·.filename)).Nodup)
    (hrecorded : ∀ output ∈ primary ++ secondary, ∃ bytes, Recorded sha256 opens output bytes) :
    ∃ differences, compareReproducibilityOutputs opens primary secondary = .ok differences ∧
      (differences = [] ↔ ∀ name bytes, HasFile opens primary name bytes ↔ HasFile opens secondary name bytes) ∧
      (∀ d ∈ differences, d.reason = .byteMismatch → ∃ xs ys, HasFile opens primary d.filename xs ∧
        HasFile opens secondary d.filename ys ∧ Mismatch.Least xs ys d.firstByte) ∧
      ∀ first second xs ys, opens first = .ok ⟨xs, none⟩ → opens second = .ok ⟨ys, none⟩ →
        ∃ answer, firstDifferentByte opens first second = .ok answer ∧ Answered 0 xs ys answer := by
  have hname := compareName_recorded hp hs hrecorded
  choose difference heq hnothing hreported using hname
  have hmap : (outputNames primary secondary).mapM (compareName opens primary secondary) =
      .ok ((outputNames primary secondary).map difference) := by
    induction outputNames primary secondary with
    | nil => rfl
    | cons name names ih =>
      rw [List.mapM_cons, heq name, ih]
      rfl
  refine ⟨((outputNames primary secondary).map difference).filterMap id, ?_, ?_, ?_,
    fun _ _ _ _ => firstDifferentByte_answers⟩
  · rw [compareReproducibilityOutputs, duplicateOutput_none hp (by simp), duplicateOutput_none hs (by simp)]
    dsimp only
    rw [hmap]
    rfl
  · rw [List.filterMap_eq_nil_iff]
    constructor
    · intro h name bytes
      by_cases hmem : name ∈ outputNames primary secondary
      · exact (hnothing name).mp (h _ (List.mem_map_of_mem hmem)) bytes
      · rw [mem_outputNames, not_or] at hmem
        refine iff_of_false ?_ ?_
        · rintro ⟨output, houtput, rfl, -⟩
          exact hmem.1 (List.mem_map_of_mem houtput)
        · rintro ⟨output, houtput, rfl, -⟩
          exact hmem.2 (List.mem_map_of_mem houtput)
    · rintro h x hx
      obtain ⟨name, -, rfl⟩ := List.mem_map.mp hx
      exact (hnothing name).mpr (h name)
  · intro d hd hreason
    obtain ⟨x, hx, hsome⟩ := List.mem_filterMap.mp hd
    obtain ⟨name, -, rfl⟩ := List.mem_map.mp hx
    obtain ⟨hsame, hleast⟩ := hreported name d hsome
    rw [hsame]
    exact hleast hreason

/-- A file of one byte, and one of another. -/
def sampleOpens : Opens := fun path =>
  if path = "a/x" then .ok ⟨[1], none⟩ else if path = "b/x" then .ok ⟨[2], none⟩ else .error (.new "no such file or directory")

def sampleHash (bytes : Bytes) : Hash.Digest := if bytes = [1] then .zero else ⟨List.replicate 32 1, by decide⟩

def sampleFirst : BuildOutput := ⟨⟨"x", 1, sampleHash [1]⟩, "a/x"⟩

def sampleSecond : BuildOutput := ⟨⟨"x", 1, sampleHash [2]⟩, "b/x"⟩

/-- Two files of one byte, which differ. -/
theorem sample_outputs_exact :
    ∃ differences, compareReproducibilityOutputs sampleOpens [sampleFirst] [sampleSecond] = .ok differences ∧
      (differences = [] ↔ ∀ name bytes,
        HasFile sampleOpens [sampleFirst] name bytes ↔ HasFile sampleOpens [sampleSecond] name bytes) ∧
      (∀ d ∈ differences, d.reason = .byteMismatch → ∃ xs ys, HasFile sampleOpens [sampleFirst] d.filename xs ∧
        HasFile sampleOpens [sampleSecond] d.filename ys ∧ Mismatch.Least xs ys d.firstByte) ∧
      ∀ first second xs ys, sampleOpens first = .ok ⟨xs, none⟩ → sampleOpens second = .ok ⟨ys, none⟩ →
        ∃ answer, firstDifferentByte sampleOpens first second = .ok answer ∧ Answered 0 xs ys answer := by
  refine @compareReproducibilityOutputs_exact sampleHash _ _ _ (List.nodup_singleton _) (List.nodup_singleton _) ?_
  intro output hmem
  rcases List.mem_cons.mp hmem with rfl | hmem
  · exact ⟨[1], rfl, rfl, rfl⟩
  · obtain rfl := List.mem_singleton.mp hmem
    exact ⟨[2], rfl, rfl, rfl⟩

end Omapkg.Worker
