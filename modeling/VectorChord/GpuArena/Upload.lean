import VectorChord.Collections.Memory

/-!
# Staged uploads

`copy_many_from_host` of the arena on a GPU.  The payloads go through a staging buffer:
runs of blocks that follow each other share a copy, and a run that is larger than the
buffer is copied in pieces.
-/

namespace VectorChord.GpuArena

open Collections List

/-- A run of blocks with the payload that it takes. -/
structure Run (blockBytes : Nat) where
  firstBlock : Nat
  runBlocks : Nat
  payload : List UInt8
  nonempty : 0 < runBlocks
  fits : payload.length ≤ runBlocks * blockBytes

/-- The first address of a copy and the staged bytes. -/
abbrev Copy := Nat × List UInt8

variable {blockBytes : Nat} (stagingBytes : Nat)

/-- The loop over the pieces of a payload; `none` if it does not end. -/
def copyPieces : Nat → Nat → List UInt8 → Option (List Copy)
  | 0, _, _ => none
  | steps + 1, address, rest =>
    if rest = [] then some []
    else do
      let length := min stagingBytes rest.length
      let copies ← copyPieces steps (address + length) (rest.drop length)
      pure ((address, rest.take length) :: copies)

/-- A payload with the zeros behind it. -/
def Run.padded (run : Run blockBytes) : List UInt8 :=
  run.payload ++ List.replicate (run.runBlocks * blockBytes - run.payload.length) 0

/-- The inner loop: stage runs as long as they follow each other and fit. -/
def stage : Nat → List UInt8 → List (Run blockBytes) → List UInt8 × List (Run blockBytes)
  | _, staged, [] => (staged, [])
  | expectedBlock, staged, run :: runs =>
    if run.firstBlock ≠ expectedBlock ∨
        stagingBytes < staged.length + run.runBlocks * blockBytes then
      (staged, run :: runs)
    else stage (expectedBlock + run.runBlocks) (staged ++ run.padded) runs

/-- The outer loop over the sorted runs; `none` if it does not end. -/
def copyRuns : Nat → List (Run blockBytes) → Option (List Copy)
  | _, [] => some []
  | 0, _ => none
  | steps + 1, run :: runs =>
    let address := run.firstBlock * blockBytes
    if stagingBytes < run.runBlocks * blockBytes then do
      let copies ← copyPieces stagingBytes (run.payload.length + 1) address run.payload
      let others ← copyRuns steps runs
      pure (copies ++ others)
    else do
      let (staged, rest) := stage stagingBytes run.firstBlock [] (run :: runs)
      let others ← copyRuns steps rest
      pure ((address, staged) :: others)

/-- The run of an item. -/
def runOf (blockBytes : Nat) : List Nat × List UInt8 → Except String (Run blockBytes)
  | ([], _) => throw "GPU upload requires one valid contiguous page run"
  | (first :: blocks, payload) =>
    if valid : first :: blocks = List.range' first (blocks.length + 1) ∧
        payload.length ≤ (blocks.length + 1) * blockBytes then
      pure ⟨first, blocks.length + 1, payload, Nat.succ_pos _, valid.2⟩
    else throw "GPU upload requires one valid contiguous page run"

/-- `GpuArena.copy_many_from_host`: the copies to the device. -/
def copyManyFromHost (blockBytes : Nat) (items : List (List Nat × List UInt8)) :
    Except String (Option (List Copy)) := do
  let runs ← items.mapM (runOf blockBytes)
  let sorted := runs.mergeSort fun left right => left.firstBlock ≤ right.firstBlock
  pure (copyRuns stagingBytes sorted.length sorted)

/-! ## Copies -/

/-- Copies that fit in the buffer and write the same as others would. -/
structure Realizes (copies writes : List Copy) : Prop where
  short : ∀ copy ∈ copies, copy.2.length ≤ stagingBytes
  same : ∀ memory, writeAll memory copies = writeAll memory writes

variable {stagingBytes} {runs : List (Run blockBytes)}

theorem Realizes.append {front back writes writes' : List Copy}
    (first : Realizes stagingBytes front writes) (second : Realizes stagingBytes back writes') :
    Realizes stagingBytes (front ++ back) (writes ++ writes') := by
  constructor
  · intro copy member
    exact (mem_append.mp member).elim (first.short copy) (second.short copy)
  · intro memory
    rw [writeAll_append, writeAll_append, first.same, second.same]

theorem copyPieces_eq (positive : 0 < stagingBytes) {steps : Nat} {rest : List UInt8}
    (enough : rest.length < steps) (address : Nat) :
    ∃ copies, copyPieces stagingBytes steps address rest = some copies ∧
      Realizes stagingBytes copies [(address, rest)] := by
  induction steps generalizing address rest with
  | zero => cases enough
  | succ steps ih =>
    by_cases done : rest = []
    · refine ⟨[], by simp [copyPieces, done], by simp, fun memory => funext fun other => ?_⟩
      simp [writeAll, write, done]
    · have left : 0 < rest.length := length_pos_iff.mpr done
      obtain ⟨copies, known, realizes⟩ := @ih (rest.drop (min stagingBytes rest.length))
        (by simp; omega) (address + min stagingBytes rest.length)
      refine ⟨(address, rest.take (min stagingBytes rest.length)) :: copies,
        by simp [copyPieces, done, known],
        forall_mem_cons.mpr ⟨by simp, realizes.short⟩, fun memory => ?_⟩
      have whole := write_append memory address (rest.take (min stagingBytes rest.length))
        (rest.drop (min stagingBytes rest.length))
      rw [take_append_drop, length_take, Nat.min_eq_left (Nat.min_le_right _ _)] at whole
      exact (realizes.same _).trans whole

variable (stagingBytes) in
/-- What a run writes in the end; behind pieces there are no zeros. -/
def Run.written (run : Run blockBytes) : Copy :=
  (run.firstBlock * blockBytes,
    if stagingBytes < run.runBlocks * blockBytes then run.payload else run.padded)

theorem Run.length_padded (run : Run blockBytes) :
    run.padded.length = run.runBlocks * blockBytes := by
  simp [padded, Nat.add_sub_cancel' run.fits]

/-- The runs that are staged write what they would write one by one. -/
theorem stage_eq {staged : List UInt8} {address expected : Nat}
    (room : staged.length ≤ stagingBytes)
    (reached : address + staged.length = expected * blockBytes) :
    ∃ taken, taken ++ (stage stagingBytes expected staged runs).2 = runs ∧
      Realizes stagingBytes [(address, (stage stagingBytes expected staged runs).1)]
        ((address, staged) :: taken.map (Run.written stagingBytes)) := by
  induction runs generalizing staged expected with
  | nil => exact ⟨[], rfl, by simpa [stage] using room, fun _ => rfl⟩
  | cons run runs ih =>
    rw [stage]
    split
    next => exact ⟨[], rfl, by simpa using room, fun _ => rfl⟩
    next next =>
      obtain ⟨rfl, fits⟩ : run.firstBlock = expected ∧
        staged.length + run.runBlocks * blockBytes ≤ stagingBytes := by omega
      have small : ¬ stagingBytes < run.runBlocks * blockBytes := by omega
      obtain ⟨taken, whole, realizes⟩ := @ih (staged ++ run.padded)
        (run.firstBlock + run.runBlocks) (by simpa [run.length_padded] using fits)
        (by simp [run.length_padded, Nat.add_mul, ← reached, Nat.add_assoc])
      refine ⟨run :: taken, by simp [whole], realizes.short, fun memory => ?_⟩
      rw [realizes.same]
      simp [writeAll, Run.written, small, ← write_append, reached]

theorem copyRuns_eq (positive : 0 < stagingBytes) {steps : Nat} (enough : runs.length ≤ steps) :
    ∃ copies, copyRuns stagingBytes steps runs = some copies ∧
      Realizes stagingBytes copies (runs.map (Run.written stagingBytes)) := by
  induction steps generalizing runs with
  | zero =>
    cases length_eq_zero_iff.mp (Nat.le_zero.mp enough)
    exact ⟨[], rfl, by simp, fun _ => rfl⟩
  | succ steps ih =>
    cases runs with
    | nil => exact ⟨[], rfl, by simp, fun _ => rfl⟩
    | cons run runs =>
      simp only [copyRuns]
      split
      next large =>
        obtain ⟨copies, known, first⟩ := copyPieces_eq positive
          (Nat.lt_succ_self run.payload.length) (run.firstBlock * blockBytes)
        obtain ⟨others, known', second⟩ := ih (Nat.le_of_succ_le_succ enough)
        refine ⟨copies ++ others, by simp [known, known'], ?_⟩
        simpa [Run.written, large] using first.append second
      next small =>
        obtain ⟨taken, whole, first⟩ := @stage_eq _ stagingBytes runs run.padded
          (run.firstBlock * blockBytes) (run.firstBlock + run.runBlocks)
          (by rw [run.length_padded]; omega) (by rw [run.length_padded, Nat.add_mul])
        have staged : stage stagingBytes run.firstBlock [] (run :: runs) =
            stage stagingBytes (run.firstBlock + run.runBlocks) run.padded runs := by
          simp [stage, small]
        rw [staged]
        generalize stage stagingBytes _ run.padded runs = result at whole first
        obtain ⟨bytes, rest⟩ := result
        cases whole
        have fewer : rest.length ≤ steps := by
          simp at enough
          omega
        obtain ⟨others, known, second⟩ := ih fewer
        refine ⟨(run.firstBlock * blockBytes, bytes) :: others, by simp [known], ?_⟩
        simpa [Run.written, small] using first.append second

section

variable (stagingBytes)

theorem Run.length_written_le (run : Run blockBytes) :
    (run.written stagingBytes).2.length ≤ run.runBlocks * blockBytes := by
  simp only [written]
  split
  · exact run.fits
  · exact Nat.le_of_eq run.length_padded

/-- A payload is at the start of what its run writes. -/
theorem Run.starts_written (run : Run blockBytes) :
    (run.written stagingBytes).2.take run.payload.length = run.payload ∧
      run.payload.length ≤ (run.written stagingBytes).2.length := by
  simp only [written]
  split <;> simp [padded]

theorem written_before {left right : Run blockBytes}
    (before : left.firstBlock + left.runBlocks ≤ right.firstBlock) :
    (left.written stagingBytes).1 + (left.written stagingBytes).2.length ≤
      (right.written stagingBytes).1 := by
  have length := left.length_written_le stagingBytes
  have start := Nat.mul_le_mul_right blockBytes before
  simp only [Run.written, Nat.add_mul] at *
  omega

end

/-- The item of a run. -/
def Run.item (run : Run blockBytes) : List Nat × List UInt8 :=
  (List.range' run.firstBlock run.runBlocks, run.payload)

theorem runOf_item (run : Run blockBytes) : runOf blockBytes run.item = .ok run := by
  obtain ⟨first, count, payload, nonempty, fits⟩ := run
  obtain ⟨blocks, rfl⟩ := Nat.exists_eq_succ_of_ne_zero (Nat.pos_iff_ne_zero.mp nonempty)
  simp [Run.item, range'_succ, runOf, fits]
  rfl

/-- The blocks of two runs are disjoint. -/
def Run.Apart (left right : Run blockBytes) : Prop :=
  left.firstBlock + left.runBlocks ≤ right.firstBlock ∨
    right.firstBlock + right.runBlocks ≤ left.firstBlock

/-- Every payload arrives at the start of its run, and nothing outside of the runs changes. -/
theorem copyManyFromHost_uploads (blockBytes stagingBytes : Nat) (positive : 0 < stagingBytes)
    (runs : List (Run blockBytes)) (apart : runs.Pairwise Run.Apart) :
    ∃ copies, copyManyFromHost stagingBytes blockBytes (runs.map Run.item) = .ok (some copies) ∧
      (∀ copy ∈ copies, copy.2.length ≤ stagingBytes) ∧
      ∀ memory, (∀ run ∈ runs, slice (writeAll memory copies) (run.firstBlock * blockBytes)
          run.payload.length = run.payload) ∧
        ∀ address, (∀ run ∈ runs, address < run.firstBlock * blockBytes ∨
          (run.firstBlock + run.runBlocks) * blockBytes ≤ address) →
          writeAll memory copies address = memory address := by
  have mapped : (runs.map Run.item).mapM (runOf blockBytes) = .ok runs := by
    induction runs with
    | nil => rfl
    | cons run runs ih =>
      simp only [map_cons, mapM_cons, runOf_item, ih (pairwise_cons.mp apart).2]
      rfl
  let sorted := runs.mergeSort fun left right => left.firstBlock ≤ right.firstBlock
  have perm : sorted.Perm runs := mergeSort_perm _ _
  obtain ⟨copies, known, realizes⟩ := copyRuns_eq positive (Nat.le_refl sorted.length)
  have apart' : (sorted.map (Run.written stagingBytes)).Pairwise fun left right =>
      left.1 + left.2.length ≤ right.1 ∨ right.1 + right.2.length ≤ left.1 :=
    pairwise_map.mpr (((perm.pairwise_iff fun beside => Or.symm beside).mpr apart).imp
      (Or.imp (written_before stagingBytes) (written_before stagingBytes)))
  refine ⟨copies, ?_, realizes.short, fun memory => ⟨?_, ?_⟩⟩
  · rw [copyManyFromHost, mapped]
    exact congrArg Except.ok known
  · intro run member
    have whole := @slice_writeAll _ memory _ apart' _ (mem_map_of_mem (perm.mem_iff.mpr member))
    have start := congrArg (take run.payload.length) whole
    rw [take_slice _ _ (run.starts_written stagingBytes).2,
      (run.starts_written stagingBytes).1] at start
    rwa [realizes.same]
  · intro address outside
    rw [realizes.same, writeAll_of_not_targets]
    rintro ⟨copy, member, low, high⟩
    obtain ⟨run, inside, rfl⟩ := mem_map.mp member
    have := run.length_written_le stagingBytes
    have := outside run (perm.mem_iff.mp inside)
    simp only [Run.written, Nat.add_mul] at *
    omega

/-- Blocks of two bytes through a buffer of three: a run in pieces and two of their own. -/
theorem copyManyFromHost_three :
    ∃ copies, copyManyFromHost 3 2 [([4], [5]), ([1, 2], [6, 7, 8, 9]), ([0], [])] =
      .ok (some copies) ∧ ∀ memory, slice (writeAll memory copies) 2 4 = [6, 7, 8, 9] := by
  obtain ⟨copies, known, _, written⟩ := copyManyFromHost_uploads 2 3 (by decide)
    [⟨4, 1, [5], by decide, by decide⟩, ⟨1, 2, [6, 7, 8, 9], by decide, by decide⟩,
      ⟨0, 1, [], by decide, by decide⟩] (by simp [Run.Apart])
  exact ⟨copies, known, fun memory => (written memory).1 _ (mem_cons_of_mem _ mem_cons_self)⟩

end VectorChord.GpuArena
