import Mathlib

/-!
# Packed half-byte codes

Codes of four bits, two in a byte, the low half first.  The packer takes whole bytes and
does not check that they have only four bits.
-/

namespace VectorChord.Rabitq.Halfbyte

open List

/-- `halfbyte::pack_code`. -/
def packCode : List UInt8 → List UInt8
  | [] => []
  | [low] => [low ||| (0 : UInt8) <<< 4]
  | low :: high :: codes => (low ||| high <<< 4) :: packCode codes

/-- The two codes of a byte. -/
def nibbles (byte : UInt8) : List UInt8 := [byte &&& 0xf, byte >>> 4]

/-- The codes of a list of bytes, padding included. -/
def unpackCode (packed : List UInt8) : List UInt8 := packed.flatMap nibbles

@[simp] theorem length_packCode (codes : List UInt8) :
    (packCode codes).length = (codes.length + 1) / 2 := by
  fun_induction packCode codes with
  | case1 => rfl
  | case2 low => simp
  | case3 low high codes ih =>
    simp only [length_cons, ih]
    omega

@[simp] theorem length_unpackCode (packed : List UInt8) :
    (unpackCode packed).length = 2 * packed.length := by
  simp [unpackCode, nibbles, length_flatMap, Nat.mul_comm]

theorem toNat_low (low high : UInt8) :
    ((low ||| high <<< 4) &&& 0xf).toNat = low.toNat % 16 := by
  have mask : ∀ value : Nat, value &&& 15 = value % 2 ^ 4 := fun value =>
    Nat.and_two_pow_sub_one_eq_mod value 4
  have shifted : (high <<< 4).toNat % 2 ^ 4 = 0 := by
    change high.toNat <<< 4 % 2 ^ 8 % 2 ^ 4 = 0
    omega
  rw [UInt8.toNat_and, UInt8.toNat_or]
  change _ &&& 15 = _
  rw [mask, Nat.or_mod_two_pow, shifted, Nat.or_zero]

theorem toNat_high (low high : UInt8) :
    ((low ||| high <<< 4) >>> 4).toNat = low.toNat / 16 ||| high.toNat % 16 := by
  have shifted : (high <<< 4).toNat / 2 ^ 4 = high.toNat % 16 := by
    change high.toNat <<< 4 % 2 ^ 8 / 2 ^ 4 = _
    omega
  rw [UInt8.toNat_shiftRight, UInt8.toNat_or]
  change _ >>> 4 = _
  rw [Nat.shiftRight_eq_div_pow, Nat.or_div_two_pow, shifted]

theorem low_eq_iff (low high : UInt8) : (low ||| high <<< 4) &&& 0xf = low ↔ low < 16 := by
  rw [← UInt8.toNat_inj, toNat_low, UInt8.lt_iff_toNat_lt]
  change _ ↔ low.toNat < 16
  omega

/-- A byte keeps two codes if both have four bits. -/
theorem nibbles_eq_iff (low high : UInt8) :
    nibbles (low ||| high <<< 4) = [low, high] ↔ low < 16 ∧ high < 16 := by
  rw [nibbles, cons_eq_cons, cons_eq_cons, low_eq_iff, ← UInt8.toNat_inj, toNat_high,
    UInt8.lt_iff_toNat_lt, UInt8.lt_iff_toNat_lt]
  change low.toNat < 16 ∧ _ ∧ _ ↔ low.toNat < 16 ∧ high.toNat < 16
  constructor
  · intro both
    have none : low.toNat / 16 = 0 := Nat.div_eq_of_lt both.1
    have second := both.2.1
    rw [none, Nat.zero_or] at second
    omega
  · intro both
    have none : low.toNat / 16 = 0 := Nat.div_eq_of_lt both.1
    rw [none, Nat.zero_or, Nat.mod_eq_of_lt both.2]
    exact ⟨both.1, rfl, rfl⟩

/-- Packing keeps codes of four bits, and no others. -/
theorem unpackCode_packCode_iff (codes : List UInt8) :
    (unpackCode (packCode codes)).take codes.length = codes ↔ ∀ code ∈ codes, code < 16 := by
  fun_induction packCode codes with
  | case1 => simp [unpackCode]
  | case2 low =>
    rw [unpackCode, flatMap_singleton, nibbles, length_singleton, take_succ_cons,
      take_zero, cons_eq_cons, low_eq_iff, forall_mem_singleton]
    exact and_iff_left rfl
  | case3 low high codes ih =>
    rw [forall_mem_cons, forall_mem_cons, ← ih, ← and_assoc, ← nibbles_eq_iff]
    simp [unpackCode, nibbles, and_assoc]

end VectorChord.Rabitq.Halfbyte
