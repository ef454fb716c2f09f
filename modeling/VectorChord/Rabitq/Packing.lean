import Mathlib

/-!
# Packed sign codes

The sign bits of a quantized vector are stored in two layouts.  An appendable tuple
holds them as 64-bit words.  A frozen tuple holds 32 vectors at once: the bits of
each vector are cut into nibbles, and row `i` of the block has the `i`-th nibbles
of all 32 vectors, two in a byte.
-/

namespace VectorChord.Rabitq

open List

/-- Cut `bits` into words of the given width, the lowest bit first and the last
word padded with zeros. -/
def packWords (width : Nat) (bits : List Bool) : List Nat :=
  (List.range ((bits.length + width - 1) / width)).map fun i =>
    Nat.ofBits fun j : Fin width => bits.getD (i * width + j) false

/-- The bits of a list of words, padding included. -/
def unpackWords (width : Nat) (words : List Nat) : List Bool :=
  words.flatMap fun word => (List.range width).map word.testBit

/-- `packing::pack_to_u4`. -/
def packToU4 (input : List Bool) : List Nat := packWords 4 input

/-- `bit::binary::pack_code`. -/
def packCode (input : List Bool) : List Nat := packWords 64 input

/-- `bits::pack_code`: the words of every bit of a code of several bits. -/
def packBits (bits : Nat) (input : List Nat) : List Nat :=
  (List.range bits).flatMap fun bit => packWords 64 (input.map fun code => code.testBit bit)

theorem length_packBits (bits : Nat) (input : List Nat) :
    (packBits bits input).length = bits * ((input.length + 63) / 64) := by
  simp [packBits, packWords, length_flatMap]

/-- The two lanes that share a byte of a row, the low nibble first. -/
def lanes : Fin 16 → Fin 32 × Fin 32 :=
  ![(0, 16), (8, 24), (1, 17), (9, 25), (2, 18), (10, 26), (3, 19), (11, 27),
    (4, 20), (12, 28), (5, 21), (13, 29), (6, 22), (14, 30), (7, 23), (15, 31)]

/-- The byte that holds lanes `j` and `j + 16`. -/
def byteOf : Fin 16 → Fin 16 :=
  ![0, 2, 4, 6, 8, 10, 12, 14, 1, 3, 5, 7, 9, 11, 13, 15]

/-- One row of sixteen bytes. -/
abbrev Row := Fin 16 → Nat

/-- Byte `b` of row `i`. -/
def packRow (x : Fin 32 → List Nat) (i : Nat) : Row := fun b =>
  (x (lanes b).1).getD i 0 ||| (x (lanes b).2).getD i 0 <<< 4 % 256

/-- `packing::pack`; all lanes must have the same length. -/
def pack (x : Fin 32 → List Nat) : Option (List Row) :=
  if ∀ j, (x 0).length = (x j).length then
    some ((List.range (x 0).length).map (packRow x))
  else none

/-- Nibble of lane `j` in a row. -/
def unpackLane (row : Row) (j : Fin 32) : Nat :=
  if h : j.val < 16 then row (byteOf ⟨j, h⟩) &&& 0xf
  else row (byteOf ⟨j - 16, by omega⟩) >>> 4

/-- `packing::unpack`. -/
def unpack (x : List Row) : Fin 32 → List Nat := fun j =>
  x.map fun row => unpackLane row j

/-- `packing::padding_pack`: missing lanes are filled with zeros. -/
def paddingPack (x : List (List Nat)) : Option (List Row) :=
  match x with
  | [] => none
  | first :: _ =>
    if 32 < x.length then none
    else pack fun j => x.getD j (List.replicate first.length 0)

/-- `packing::any_pack`. -/
def anyPack {α : Type} (default : α) (x : List α) : Fin 32 → α := fun j => x.getD j default

/-! ## Words -/

theorem length_packWords (width : Nat) (bits : List Bool) :
    (packWords width bits).length = (bits.length + width - 1) / width := by
  simp [packWords]

/-- Unpacking the words given by `word 0, word 1, …` reads bit `k % width` of word
`k / width` at position `k`. -/
theorem unpackWords_range {width : Nat} (positive : 0 < width) (word : Nat → Nat)
    (count : Nat) :
    unpackWords width ((List.range count).map word) =
      (List.range (count * width)).map fun k => (word (k / width)).testBit (k % width) := by
  induction count with
  | zero => simp [unpackWords]
  | succ count ih =>
    have last : unpackWords width [word count] =
        ((range width).map fun j => count * width + j).map
          fun k => (word (k / width)).testBit (k % width) := by
      simp only [unpackWords, flatMap_cons, flatMap_nil, append_nil, map_map]
      apply map_congr_left
      intro j inside
      have small : j < width := mem_range.mp inside
      simp only [Function.comp_apply]
      rw [Nat.add_comm, Nat.add_mul_div_right _ _ positive, Nat.div_eq_of_lt small,
        Nat.zero_add, Nat.add_mul_mod_self_right, Nat.mod_eq_of_lt small]
    have split : unpackWords width ((range (count + 1)).map word) =
        unpackWords width ((range count).map word) ++
          unpackWords width [word count] := by
      simp [unpackWords, range_succ, flatMap_append]
    rw [split, ih, last, Nat.succ_mul, range_add, map_append]

/-- Packing and unpacking returns the bits followed by the zero padding. -/
theorem unpackWords_packWords {width : Nat} (positive : 0 < width) (bits : List Bool) :
    ∃ padding, unpackWords width (packWords width bits) = bits ++ padding := by
  rw [packWords, unpackWords_range positive]
  have covered : bits.length ≤ (bits.length + width - 1) / width * width := by
    have := Nat.div_add_mod (bits.length + width - 1) width
    have := Nat.mod_lt (bits.length + width - 1) positive
    rw [Nat.mul_comm]
    omega
  have read : ∀ k, (Nat.ofBits fun j : Fin width =>
      bits.getD (k / width * width + j) false).testBit (k % width) = bits.getD k false := by
    intro k
    rw [Nat.testBit_ofBits_lt _ _ (Nat.mod_lt k positive)]
    congr 1
    exact Nat.div_add_mod' k width
  simp only [read]
  obtain ⟨extra, total⟩ := Nat.exists_eq_add_of_le covered
  rw [total, range_add, map_append]
  refine ⟨_, congrArg (· ++ _) ?_⟩
  apply ext_getElem
  · simp
  · intro i _ inside
    simp [inside]

/-! ## Blocks of 32 vectors -/

theorem nibbles_of_byte (low high : Fin 16) :
    ((low.val ||| high.val <<< 4 % 256) &&& 0xf = low) ∧
      (low.val ||| high.val <<< 4 % 256) >>> 4 = high := by
  revert low high
  decide

theorem lanes_byteOf (j : Fin 16) :
    lanes (byteOf j) = (⟨j, by omega⟩, ⟨j + 16, by omega⟩) := by
  revert j
  decide

variable {x : Fin 32 → List Nat} {rows : List Row}

theorem unpackLane_packRow {i : Nat} (nibble : ∀ j, (x j).getD i 0 < 16) (j : Fin 32) :
    unpackLane (packRow x i) j = (x j).getD i 0 := by
  unfold unpackLane packRow
  split
  next low =>
    rw [lanes_byteOf]
    exact (nibbles_of_byte ⟨_, nibble _⟩ ⟨_, nibble _⟩).1
  next high =>
    rw [lanes_byteOf]
    refine (nibbles_of_byte ⟨_, nibble _⟩ ⟨_, nibble _⟩).2.trans ?_
    have same : (⟨j - 16 + 16, by omega⟩ : Fin 32) = j := Fin.ext (by simp; omega)
    simp only [same]

/-- Unpacking a packed block returns the 32 lanes. -/
theorem unpack_pack (nibble : ∀ j, ∀ value ∈ x j, value < 16) (packed : pack x = some rows) :
    unpack rows = x := by
  unfold pack at packed
  split at packed
  next equal =>
    cases packed
    funext j
    apply ext_getElem
    · simp [unpack, equal j]
    · intro i _ inside
      have small : ∀ k, (x k).getD i 0 < 16 := by
        intro k
        have bound : i < (x k).length := by rw [← equal k, equal j]; exact inside
        rw [← getElem_eq_getD (h := bound)]
        exact nibble k _ (getElem_mem bound)
      simp only [unpack, getElem_map, getElem_range]
      rw [unpackLane_packRow small, getElem_eq_getD]
  next => cases packed

theorem length_of_pack (packed : pack x = some rows) : rows.length = (x 0).length := by
  unfold pack at packed
  split at packed
  · cases packed
    simp
  · cases packed

theorem packToU4_lt {input : List Bool} {value : Nat} (member : value ∈ packToU4 input) :
    value < 16 := by
  simp only [packToU4, packWords, mem_map] at member
  obtain ⟨i, _, rfl⟩ := member
  exact Nat.ofBits_lt_two_pow _

end VectorChord.Rabitq
