import VectorChord.Collections.Checked
import VectorChord.Collections.Lanes
import VectorChord.Rabitq.Packing

/-!
# Inner products of bit planes

A code vector is stored as one list of words for every bit.  The inner product of two
vectors is the sum, over every pair of their planes, of the positions where both have
a one, shifted by the weight of the pair.
-/

namespace VectorChord.Rabitq

open Collections List Function

/-- `u64::count_ones`. -/
def countOnes (word : Nat) : Nat := ((List.range 64).map fun k => (word.testBit k).toNat).sum

abbrev FitsU32 (value : Nat) : Prop := value < 2 ^ 32

theorem FitsU32.of_add (left right : Nat) (fits : FitsU32 (left + right)) : FitsU32 left :=
  lt_of_le_of_lt (Nat.le_add_right _ _) fits

/-- `simd::bit::reduce_sum_of_and`. -/
def reduceSumOfAnd (lhs rhs : List Nat) : Option Nat :=
  if lhs.length = rhs.length then
    (lhs.zip rhs).foldlM (fun and words => addIf FitsU32 and (countOnes (words.1 &&& words.2))) 0
  else none

/-- The statement `result += reduce_sum_of_and(lhs, rhs) << shift`.  A shift loses the
bits above the 32nd. -/
def addShifted (result : Nat) (lhs rhs : List Nat) (shift : Nat) : Option Nat := do
  addIf FitsU32 result ((← reduceSumOfAnd lhs rhs) <<< shift % 2 ^ 32)

/-- `bit::binary::accumulate`. -/
def binaryAccumulate (x : List Nat) (y : Fin 6 → List Nat) : Option Nat :=
  (List.finRange 6).foldlM (fun result i => addShifted result x (y i) i) 0

/-- `bit::binary::binarize`. -/
def binarize (vector : List Nat) : Fin 6 → List Nat := fun i =>
  (List.range vector.length).foldl
    (fun t j => t.modify (j / 64) fun word =>
      word ||| (vector.getD j 0 >>> i.val &&& 1) <<< (j % 64))
    (List.replicate ((vector.length + 63) / 64) 0)

/-- `extended::pack_code`. -/
def extendedPackCode (bits : Nat) (input : List Nat) : Fin bits → List Nat := fun bit =>
  packWords 64 (input.map fun code => code.testBit bit)

/-- `extended::accumulate`. -/
def extendedAccumulate (X Y : Nat) (lhs : List Nat) (rhs : Fin Y → List Nat) : Option Nat :=
  if X ∣ lhs.length then
    let d := lhs.length / X
    (List.finRange X ×ˢ List.finRange Y).foldlM
      (fun result ij => addShifted result ((lhs.drop (ij.1 * d)).take d) (rhs ij.2) (ij.1 + ij.2))
      0
  else none

/-! ## Counting common ones -/

/-- The number of positions where both lists have a one. -/
def common (s t : List Bool) : Nat := (zipWith (fun a b => (a && b).toNat) s t).sum

variable {s t : List Bool} {X Y : Nat} {x y : List Nat}

theorem common_eq (equal : s.length = t.length) :
    common s t =
      ((List.range s.length).map fun k => (s.getD k false && t.getD k false).toNat).sum := by
  rw [common]
  congr 1
  apply ext_getElem
  · simp [equal]
  · intro k inside _
    simp only [length_zipWith, lt_inf_iff] at inside
    simp [inside.1, inside.2]

theorem common_le : common s t ≤ s.length := by
  have ones : ∀ value ∈ zipWith (fun a b => (a && b).toNat) s t, value ≤ 1 := by
    simp only [← map_uncurry_zip_eq_zipWith, mem_map]
    rintro value ⟨pair, _, rfl⟩
    exact Bool.toNat_le _
  have bound := sum_le_card_nsmul _ 1 ones
  simp only [length_zipWith, smul_eq_mul, mul_one] at bound
  exact bound.trans (min_le_left _ _)

/-- The padding of the last words adds nothing. -/
theorem sum_countOnes (equal : s.length = t.length) :
    (((packWords 64 s).zip (packWords 64 t)).map fun words =>
      countOnes (words.1 &&& words.2)).sum = common s t := by
  have word : ∀ i, countOnes ((Nat.ofBits fun j : Fin 64 => s.getD (i * 64 + j) false) &&&
      Nat.ofBits fun j : Fin 64 => t.getD (i * 64 + j) false) =
      ((range 64).map fun j =>
        (s.getD (i * 64 + j) false && t.getD (i * 64 + j) false).toNat).sum := by
    intro i
    rw [countOnes]
    congr 1
    apply map_congr_left
    intro j inside
    rw [Nat.testBit_and, Nat.testBit_ofBits_lt _ _ (mem_range.mp inside),
      Nat.testBit_ofBits_lt _ _ (mem_range.mp inside)]
  obtain ⟨extra, padded⟩ : ∃ extra, (s.length + 63) / 64 * 64 = s.length + extra :=
    ⟨_, (Nat.add_sub_of_le (by omega)).symm⟩
  have sums := congrArg sum (@Lanes.flatMap_range_mul _ 64
    (fun k => (s.getD k false && t.getD k false).toNat) ((s.length + 63) / 64))
  rw [flatMap_def, sum_flatten, map_map, padded, range_add] at sums
  simp only [packWords, ← equal, zip_map', map_map, comp_def, word]
  rw [common_eq equal]
  simpa [comp_def] using sums

theorem reduceSumOfAnd_packWords (equal : s.length = t.length) (fits : s.length < 2 ^ 32) :
    reduceSumOfAnd (packWords 64 s) (packWords 64 t) = some (common s t) := by
  rw [reduceSumOfAnd, if_pos (by simp [length_packWords, equal]), ← sum_countOnes equal,
    ← zero_add (sum _)]
  apply foldlM_add FitsU32 FitsU32.of_add _ fun _ _ _ fits => if_pos fits
  rw [zero_add, sum_countOnes equal]
  exact common_le.trans_lt fits

/-! ## Weights of the planes -/

theorem sum_testBit {bits value : Nat} (bound : value < 2 ^ bits) :
    ∑ i : Fin bits, 2 ^ i.val * (value.testBit i).toNat = value := by
  have weights : ∀ {n} (f : Fin n → Bool), Nat.ofBits f = ∑ i, 2 ^ i.val * (f i).toNat := by
    intro n
    induction n with
    | zero => simp
    | succ n ih =>
      intro f
      simp [Nat.ofBits_succ, Fin.sum_univ_succ, ih, pow_succ', mul_assoc, Finset.mul_sum, add_comm]
  rw [← weights, Nat.ofBits_testBit, Nat.mod_eq_of_lt bound]

/-- One plane of a vector. -/
abbrev plane (codes : List Nat) (bit : Nat) : List Bool := codes.map fun code => code.testBit bit

theorem sum_common (left : ∀ code ∈ x, code < 2 ^ X) (right : ∀ code ∈ y, code < 2 ^ Y) :
    ∑ i : Fin X, ∑ j : Fin Y, common (plane x i) (plane y j) * 2 ^ (i.val + j.val) =
      (zipWith (· * ·) x y).sum := by
  induction x generalizing y with
  | nil => simp [common]
  | cons a x ih =>
    cases y with
    | nil => simp [common]
    | cons b y =>
      simp only [forall_mem_cons] at left right
      have product : ∑ i : Fin X, ∑ j : Fin Y,
          (a.testBit i && b.testBit j).toNat * 2 ^ (i.val + j.val) = a * b := by
        nth_rewrite 2 [← sum_testBit left.1, ← sum_testBit right.1]
        simp only [Finset.sum_mul_sum, pow_add]
        refine Finset.sum_congr rfl fun i _ => Finset.sum_congr rfl fun j _ => ?_
        cases a.testBit i <;> cases b.testBit j <;> simp
      simpa [common, add_mul, Finset.sum_add_distrib, product] using ih left.2 right.2

theorem addShifted_plane (equal : x.length = y.length) (short : x.length ≤ 65535) {i j : Nat}
    (first : i < 8) (second : j < 8) (result : Nat) :
    addShifted result (packWords 64 (plane x i)) (packWords 64 (plane y j)) (i + j) =
      addIf FitsU32 result (common (plane x i) (plane y j) * 2 ^ (i + j)) := by
  have count : common (plane x i) (plane y j) ≤ 65535 := common_le.trans (by simpa using short)
  have weight : 2 ^ (i + j) ≤ 2 ^ 14 := Nat.pow_le_pow_right (by decide) (by omega)
  have small := Nat.mul_le_mul count weight
  rw [addShifted, reduceSumOfAnd_packWords (by simpa using equal) (by simp; omega)]
  simp only [Option.bind_eq_bind, Option.bind_some]
  rw [Nat.shiftLeft_eq, Nat.mod_eq_of_lt (by omega)]

theorem product_fits (widthX : X ≤ 8) (widthY : Y ≤ 8) (equal : x.length = y.length)
    (short : x.length ≤ 65535) (left : ∀ code ∈ x, code < 2 ^ X)
    (right : ∀ code ∈ y, code < 2 ^ Y) : FitsU32 (zipWith (· * ·) x y).sum := by
  have byte : ∀ {width code}, width ≤ 8 → code < 2 ^ width → code ≤ 255 := fun narrow below =>
    Nat.le_of_lt_succ (below.trans_le (Nat.pow_le_pow_right (by decide) narrow))
  have products : ∀ value ∈ zipWith (· * ·) x y, value ≤ 255 * 255 := by
    simp only [← map_uncurry_zip_eq_zipWith, mem_map]
    rintro value ⟨pair, member, rfl⟩
    exact Nat.mul_le_mul (byte widthX (left _ (of_mem_zip member).1))
      (byte widthY (right _ (of_mem_zip member).2))
  have bound := sum_le_card_nsmul _ _ products
  simp only [length_zipWith, ← equal, Nat.min_self, smul_eq_mul] at bound
  omega

theorem take_drop_packBits (x : List Nat) (i : Fin X) :
    ((packBits X x).drop (i * ((x.length + 63) / 64))).take ((x.length + 63) / 64) =
      packWords 64 (plane x i) := by
  rw [packBits, flatMap_def, Lanes.take_drop_flatten]
  · simp
  · simp [length_packWords]
  · simp

/-- The inner product of two packed vectors. -/
theorem extendedAccumulate_eq (widthX : X ≤ 8) (widthY : Y ≤ 8) (positive : 0 < X)
    (equal : x.length = y.length) (short : x.length ≤ 65535)
    (left : ∀ code ∈ x, code < 2 ^ X) (right : ∀ code ∈ y, code < 2 ^ Y) :
    extendedAccumulate X Y (packBits X x) (extendedPackCode Y y) =
      some (zipWith (· * ·) x y).sum := by
  let value (ij : Fin X × Fin Y) : Nat :=
    common (plane x ij.1) (plane y ij.2) * 2 ^ (ij.1.val + ij.2.val)
  have sums : 0 + ((finRange X ×ˢ finRange Y).map value).sum =
      (zipWith (· * ·) x y).sum := by
    rw [← sum_common left right]
    simp [value, Fin.sum_univ_def, SProd.sprod, product, flatMap_def, map_flatten, sum_flatten,
      comp_def]
  rw [extendedAccumulate, if_pos (by simp [length_packBits])]
  simp only [length_packBits, Nat.mul_div_cancel_left _ positive, take_drop_packBits]
  rw [← sums]
  refine foldlM_add FitsU32 FitsU32.of_add value (fun ij _ result fits => ?_)
    (sums ▸ product_fits widthX widthY equal short left right)
  exact (addShifted_plane equal short (ij.1.isLt.trans_le widthX) (ij.2.isLt.trans_le widthY)
    result).trans (if_pos fits)

/-! ## Signs -/

/-- After `count` steps a plane has the bits of the first `count` elements. -/
theorem foldl_binarize (vector : List Nat) (i : Nat) {words count : Nat}
    (bound : count ≤ words * 64) :
    (List.range count).foldl
      (fun t j => t.modify (j / 64) fun word =>
        word ||| (vector.getD j 0 >>> i &&& 1) <<< (j % 64)) (List.replicate words 0) =
      (List.range words).map fun w => Nat.ofBits fun k : Fin 64 =>
        decide (w * 64 + k < count) && (vector.getD (w * 64 + k) 0).testBit i := by
  induction count with
  | zero =>
    have none : Nat.ofBits (fun _ : Fin 64 => false) = 0 := by decide
    simp [none]
  | succ count ih =>
    rw [range_succ, foldl_append, ih (by omega)]
    have bit : ∀ r, (vector.getD count 0 >>> i &&& 1).testBit r =
        (decide (r = 0) && (vector.getD count 0).testBit i) := by
      intro r
      rw [Nat.testBit_and, Nat.testBit_shiftRight]
      cases r <;> simp [Nat.testBit_succ]
    apply ext_getElem
    · simp
    · intro w _ inside
      apply Nat.eq_of_testBit_eq
      intro k
      simp only [foldl_cons, foldl_nil, getElem_modify, getElem_map, getElem_range]
      split
      next same =>
        simp only [Nat.testBit_or, Nat.testBit_shiftLeft, bit, Nat.testBit_ofBits]
        by_cases here : k = count % 64
        · have position : w * 64 + count % 64 = count := by omega
          simp [here, position, Nat.mod_lt]
        · have before : w * 64 + k < count + 1 ↔ w * 64 + k < count := by omega
          grind
      next other =>
        have before : ∀ k : Fin 64, w * 64 + k < count + 1 ↔ w * 64 + k < count := by omega
        simp [before]

theorem binarize_eq (vector : List Nat) (i : Fin 6) :
    binarize vector i = packWords 64 (plane vector i) := by
  rw [binarize, foldl_binarize _ _ (by omega), packWords]
  simp only [length_map]
  refine map_congr_left fun w _ => congrArg Nat.ofBits (funext fun k => ?_)
  by_cases inside : w * 64 + k < vector.length
  · simp [inside]
  · simp [inside]

theorem binaryAccumulate_eq (x : List Nat) (y : Fin 6 → List Nat) :
    binaryAccumulate x y = extendedAccumulate 1 6 x y := by
  simp [binaryAccumulate, extendedAccumulate, SProd.sprod, product, finRange_succ]

/-- A packed code and a query, or two packed codes, give their inner product. -/
theorem accumulate_exact :
    (∀ (signs : List Bool) (query : List Nat), signs.length = query.length →
      signs.length ≤ 65535 → (∀ value ∈ query, value < 2 ^ 6) →
      binaryAccumulate (packCode signs) (binarize query) =
        some (zipWith (fun sign value => if sign then value else 0) signs query).sum) ∧
    ∀ X Y, 0 < X → X ≤ 8 → 0 < Y → Y ≤ 8 → ∀ x y : List Nat, x.length = y.length →
      x.length ≤ 65535 → (∀ code ∈ x, code < 2 ^ X) → (∀ code ∈ y, code < 2 ^ Y) →
      extendedAccumulate X Y (packBits X x) (extendedPackCode Y y) =
        some (zipWith (· * ·) x y).sum := by
  constructor
  · intro signs query equal short below
    have packed : packCode signs = packBits 1 (signs.map Bool.toNat) := by
      have bit : (fun sign : Bool => sign.toNat.testBit 0) = id := by
        funext sign
        cases sign <;> rfl
      simp [packCode, packBits, comp_def, bit, -Nat.testBit_zero]
    have planes : binarize query = extendedPackCode 6 query := funext (binarize_eq query)
    rw [binaryAccumulate_eq, packed, planes, extendedAccumulate_eq (by decide) (by decide)
      (by decide) (by simpa using equal) (by simpa using short) ?_ below, zipWith_map_left]
    · congr 3
      funext sign value
      cases sign <;> simp
    · simp only [mem_map]
      rintro _ ⟨sign, _, rfl⟩
      exact sign.toNat_lt
  · intro X Y positive widthX _ widthY x y
    exact extendedAccumulate_eq widthX widthY positive

theorem accumulate_three :
    binaryAccumulate (packCode [true, false, true]) (binarize [3, 5, 63]) = some 66 :=
  accumulate_exact.1 [true, false, true] [3, 5, 63] rfl (by decide) (by decide)

end VectorChord.Rabitq
