import VectorChord.Collections.Lanes
import VectorChord.Vchordrq.Reading
import VectorChord.Vchordrq.Writing

/-!
# Blocks of branches

Branches are written in blocks of 32: the children of a cell to its H1 tape, the entries of
a leaf to its frozen tape.  The readers deliver them again, in the same order and each with
its own code and key.
-/

namespace VectorChord.Vchordrq

open Collections Index Paged Rabitq List
open Collections.Blocks (Slice blocks unfinished)

variable {α : Type} {slices : List (List Nat)} {step : Nat}

/-! ## Lanes -/

/-- 32 prefetch lists of one length are found again in their lanes. -/
theorem lanePrefetch_asChunks32 (full : slices.length = 32)
    (lengths : ∀ slice ∈ slices, slice.length = step) (j : Fin 32) :
    lanePrefetch (asChunks32 slices.flatten) j = slices[j] := by
  have total : slices.flatten.length = step * 32 := by
    rw [Lanes.length_flatten lengths, full, mul_comm]
  have arrays : asChunks32 slices.flatten = Lanes.arrays 32 0 slices.flatten := rfl
  rw [lanePrefetch, arrays, Lanes.flatMap_arrays (by decide) 0 total, Lanes.length_arrays, total,
    Nat.mul_div_cancel _ (by decide : 0 < 32)]
  exact Lanes.take_drop_flatten lengths _

/-- How prefetch lists are fixed: every list is found again in its lane. -/
def Fixes (fix : List (List Nat) → Option (List (Fin 32 → Nat))) : Prop :=
  ∀ slices arrays, fix slices = some arrays → slices.length ≤ 32 ∧
    ∀ (j : Fin 32) (inside : j.val < slices.length), lanePrefetch arrays j = slices[j]

theorem fixes_fixGood : Fixes fixGood := by
  intro slices arrays fixed
  rw [fixGood] at fixed
  split_ifs at fixed with lanes lengths
  cases fixed
  have full := not_not.mp lanes
  have same : ∀ slice ∈ slices, slice.length = (slices.headD []).length := by
    simpa using lengths
  exact ⟨full.le, fun j _ => lanePrefetch_asChunks32 full same j⟩

theorem fixes_fixBad : Fixes fixBad := by
  intro slices arrays fixed
  rw [fixBad] at fixed
  split_ifs at fixed with lanes lengths
  cases fixed
  have bound := not_lt.mp lanes
  have full : (slices ++ replicate (32 - slices.length)
      (replicate (slices.headD []).length u32Max)).length = 32 := by
    simp [Nat.add_sub_cancel' bound]
  have same : ∀ slice ∈ slices ++ replicate (32 - slices.length)
      (replicate (slices.headD []).length u32Max),
        slice.length = (slices.headD []).length := by
    intro slice member
    cases mem_append.mp member with
    | inl listed => simpa using all_eq_true.mp lengths slice listed
    | inr filler => simp [eq_of_mem_replicate filler]
  refine ⟨bound, ?_⟩
  intro j inside
  rw [lanePrefetch_asChunks32 full same]
  exact getElem_append_left inside

theorem length_asChunks32 (full : slices.length = 32)
    (lengths : ∀ slice ∈ slices, slice.length = step) :
    (asChunks32 slices.flatten).length = step := by
  rw [asChunks32, length_map, length_range, Lanes.length_flatten lengths, full,
    Nat.mul_div_cancel_left _ (by decide : 0 < 32)]

theorem length_headD (nonempty : slices ≠ []) (lengths : ∀ slice ∈ slices, slice.length = step) :
    (slices.headD []).length = step := by
  cases slices with
  | nil => exact absurd rfl nonempty
  | cons slice slices => exact lengths slice mem_cons_self

/-- 32 lists of one length can be fixed. -/
theorem exists_fixGood (full : slices.length = 32)
    (lengths : ∀ slice ∈ slices, slice.length = step) :
    ∃ arrays, fixGood slices = some arrays ∧ arrays.length = step := by
  have nonempty : slices ≠ [] := by
    intro empty
    simp [empty] at full
  refine ⟨asChunks32 slices.flatten, ?_, length_asChunks32 full lengths⟩
  have head := length_headD nonempty lengths
  rw [fixGood, if_neg (not_not.mpr full), head, if_pos]
  simpa using lengths

/-- So can fewer of them. -/
theorem exists_fixBad (nonempty : slices ≠ []) (bound : slices.length ≤ 32)
    (lengths : ∀ slice ∈ slices, slice.length = step) :
    ∃ arrays, fixBad slices = some arrays ∧ arrays.length = step := by
  have head := length_headD nonempty lengths
  have filled : ∀ slice ∈ slices ++ replicate (32 - slices.length)
      (replicate step u32Max), slice.length = step := by
    intro slice member
    cases mem_append.mp member with
    | inl listed => exact lengths slice listed
    | inr filler => simp [eq_of_mem_replicate filler]
  refine ⟨asChunks32 (slices ++ replicate (32 - slices.length)
    (replicate step u32Max)).flatten, ?_, length_asChunks32 ?_ filled⟩
  · rw [fixBad, if_neg (not_lt.mpr bound), head, if_pos]
    simpa using lengths
  · simp [Nat.add_sub_cancel' bound]

/-! ## Blocks -/

/-- A branch of an index of the given dimension, with a prefetch list of the given
length. -/
structure Branch.Fits (dim step : Nat) (branch : Branch α) : Prop where
  signs : branch.code.signs.length = dim
  prefetch : branch.prefetch.length = step

/-- The branch without the signs behind the dimension, which are padding. -/
def Branch.cut (dim : Nat) (branch : Branch α) : Branch α :=
  { branch with code := ⟨branch.code.metadata, branch.code.signs.take dim⟩ }

variable {j : Fin 32} {chunk : List (Branch α)} {dim : Nat} {rows : List Row}

theorem anyPack_map {α β : Type} (default : β) (f : α → β) {values : List α}
    (inside : j.val < values.length) : anyPack default (values.map f) j = f values[j] := by
  simp [anyPack, inside]

/-- The rows of a block. -/
theorem length_blockRows (packed : blockRows chunk = some rows)
    (signs : ∀ branch ∈ chunk, branch.code.signs.length = dim) : rows.length = (dim + 3) / 4 := by
  rw [blockRows] at packed
  cases chunk with
  | nil => cases packed
  | cons branch chunk =>
    simp only [map_cons, paddingPack] at packed
    split_ifs at packed
    have length := length_of_pack packed
    rw [length]
    simp [packToU4, length_packWords, signs branch mem_cons_self]

/-- Branches of one dimension can be packed. -/
theorem exists_blockRows (nonempty : chunk ≠ []) (bound : chunk.length ≤ 32)
    (signs : ∀ branch ∈ chunk, branch.code.signs.length = dim) :
    ∃ rows, blockRows chunk = some rows := by
  have lengths : ∀ nibbles ∈ chunk.map fun x => packToU4 x.code.signs,
      nibbles.length = (dim + 3) / 4 := by
    intro nibbles member
    obtain ⟨branch, listed, rfl⟩ := mem_map.mp member
    simp [packToU4, length_packWords, signs branch listed]
  rw [blockRows]
  cases packed : chunk.map fun x => packToU4 x.code.signs with
  | nil => exact absurd (map_eq_nil_iff.mp packed) nonempty
  | cons first rest =>
    have length : (first :: rest).length ≤ 32 := by
      rw [← packed, length_map]
      exact bound
    rw [packed] at lengths
    have filled : ∀ j : Fin 32,
        ((first :: rest).getD j (replicate first.length 0)).length = (dim + 3) / 4 := by
      intro j
      by_cases inside : j.val < (first :: rest).length
      · rw [getD_eq_getElem _ _ inside]
        exact lengths _ (getElem_mem inside)
      · rw [getD_eq_default _ _ (not_lt.mp inside), length_replicate]
        exact lengths first mem_cons_self
    rw [paddingPack, if_neg (not_lt.mpr length), pack, if_pos]
    · exact ⟨_, rfl⟩
    · intro j
      rw [filled 0, filled j]

/-- The code of a branch is found again in its lane. -/
theorem unpack_blockRows (packed : blockRows chunk = some rows) (inside : j.val < chunk.length) :
    unpack rows j = packToU4 chunk[j].code.signs := by
  rw [blockRows] at packed
  have listed : (chunk.map fun x => packToU4 x.code.signs)[j.val]? =
      some (packToU4 chunk[j].code.signs) := by
    simp [inside]
  revert packed listed
  have nibble : ∀ nibbles ∈ chunk.map fun x => packToU4 x.code.signs,
      ∀ value ∈ nibbles, value < 16 := by
    intro nibbles member value found
    obtain ⟨branch, _, rfl⟩ := mem_map.mp member
    exact packToU4_lt found
  revert nibble
  cases chunk.map fun x => packToU4 x.code.signs with
  | nil =>
    intro _ packed
    cases packed
  | cons first rest =>
    intro nibble packed listed
    rw [paddingPack] at packed
    split_ifs at packed
    rw [unpack_pack _ packed]
    · simp [getD, listed]
    · intro lane value member
      by_cases lanes : lane.val < (first :: rest).length
      · rw [getD_eq_getElem _ _ lanes] at member
        exact nibble _ (getElem_mem lanes) value member
      · rw [getD_eq_default _ _ (not_lt.mp lanes)] at member
        rw [eq_of_mem_replicate member]
        decide

theorem take_unpack_blockRows (packed : blockRows chunk = some rows)
    (fits : ∀ branch ∈ chunk, branch.Fits dim step) (inside : j.val < chunk.length) :
    (unpackWords 4 (unpack rows j)).take dim = chunk[j].code.signs := by
  have length := (fits _ (getElem_mem inside)).signs
  rw [unpack_blockRows packed inside]
  obtain ⟨padding, unpacked⟩ := @unpackWords_packWords 4 (by decide) chunk[j].code.signs
  rw [packToU4, unpacked]
  exact (take_append_of_le_length length.ge).trans (take_of_length_le length.le)

theorem laneMetadata_blockMetadata (inside : j.val < chunk.length) :
    laneMetadata (blockMetadata chunk) j = chunk[j].code.metadata := by
  have disU2 : blockMetadata chunk 0 j = chunk[j].code.metadata.disU2 :=
    anyPack_map (0 : Word) (fun x : Branch α => x.code.metadata.disU2) inside
  have factorCnt : blockMetadata chunk 1 j = chunk[j].code.metadata.factorCnt :=
    anyPack_map (0 : Word) (fun x : Branch α => x.code.metadata.factorCnt) inside
  have factorIp : blockMetadata chunk 2 j = chunk[j].code.metadata.factorIp :=
    anyPack_map (0 : Word) (fun x : Branch α => x.code.metadata.factorIp) inside
  have factorErr : blockMetadata chunk 3 j = chunk[j].code.metadata.factorErr :=
    anyPack_map (0 : Word) (fun x : Branch α => x.code.metadata.factorErr) inside
  rw [laneMetadata, disU2, factorCnt, factorIp, factorErr]

/-- What is stored for some children. -/
def HoldsH1 (chunk : List (Branch Nat)) (block : H1Header × List Row) : Prop :=
  ∃ fix arrays, Fixes fix ∧ fix (chunk.map fun x => x.prefetch) = some arrays ∧
    block.1 = h1Header chunk arrays ∧ blockRows chunk = some block.2

/-- What is stored for 32 entries. -/
def HoldsFrozen (chunk : List (Branch Payload)) (block : FrozenHeader × List Row) : Prop :=
  chunk.length = 32 ∧ ∃ arrays, fixGood (chunk.map fun x => x.prefetch) = some arrays ∧
    block.1 = frozenHeader chunk arrays ∧ blockRows chunk = some block.2

/-- The branches of an H1 block are the ones that were written. -/
theorem HoldsH1.branches {chunk : List (Branch Nat)} {block : H1Header × List Row}
    (holds : HoldsH1 chunk block) (fits : ∀ branch ∈ chunk, branch.Fits dim step) :
    (block.1.branches block.2).map (Branch.cut dim) = chunk := by
  obtain ⟨header, rows⟩ := block
  obtain ⟨fix, arrays, fixes, fixed, same, packed⟩ := holds
  obtain ⟨bound, lanes⟩ := fixes _ _ fixed
  rw [length_map] at bound
  rw [same, H1Header.branches, map_map]
  apply Lanes.map_filter_finRange bound
  intro j inside
  have prefetch := lanes j (by simpa using inside)
  have signs := take_unpack_blockRows packed fits inside
  have metadata := laneMetadata_blockMetadata inside
  simp [H1Header.branch, Branch.cut, h1Header, prefetch, signs, metadata, anyPack_map _ _ inside]

/-- The branches of a frozen block are the ones that were written; a frozen tuple has no
norms. -/
theorem HoldsFrozen.branches {chunk : List (Branch Payload)} {block : FrozenHeader × List Row}
    (holds : HoldsFrozen chunk block) (fits : ∀ branch ∈ chunk, branch.Fits dim step) :
    (block.1.branches block.2).map (Branch.cut dim) =
      chunk.map fun branch => { branch with norm := 0 } := by
  obtain ⟨header, rows⟩ := block
  obtain ⟨full, arrays, fixed, same, packed⟩ := holds
  dsimp only at same packed ⊢
  have lanes := (fixes_fixGood _ _ fixed).2
  rw [FrozenHeader.branches, map_filterMap]
  apply Lanes.filterMap_finRange
  · rw [length_map, full]
  · intro j
    have inside : j.val < chunk.length := by
      rw [full]
      exact j.isLt
    have prefetch := lanes j (by simpa using inside)
    have signs := take_unpack_blockRows packed fits inside
    have metadata := laneMetadata_blockMetadata inside
    simp [same, FrozenHeader.branch, Branch.cut, frozenHeader, prefetch, signs, metadata,
      anyPack_map _ _ inside, inside]

end VectorChord.Vchordrq
