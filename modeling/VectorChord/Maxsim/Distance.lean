import Mathlib

/-!
# Distances

A distance is an `f32` whose bits are arranged so that the order of numbers is that of
signed integers.
-/

namespace VectorChord.Maxsim

open BitVec

/-- `Distance`: an `i32`. -/
structure Distance where
  bits : BitVec 32
  deriving DecidableEq, Repr

namespace Distance

/-- The bits that are flipped if the sign bit is set. -/
def mask (bits : BitVec 32) : BitVec 32 := (bits.sshiftRight 31) >>> 1

/-- `from_f32`, on the bits of a number. -/
def fromF32 (bits : BitVec 32) : Distance := ⟨bits ^^^ mask bits⟩

/-- `to_f32`. -/
def toF32 (distance : Distance) : BitVec 32 := distance.bits ^^^ mask distance.bits

/-- `to_i32`. -/
def toI32 (distance : Distance) : Int := distance.bits.toInt

theorem toI32_injective : Function.Injective toI32 := by
  intro left right same
  exact congrArg mk (eq_of_toInt_eq same)

instance : LinearOrder Distance := LinearOrder.lift' toI32 toI32_injective

theorem mask_eq (bits : BitVec 32) : mask bits = if bits.msb then 0x7fffffff#32 else 0#32 := by
  have ones : ∀ i : Fin 32, (0x7fffffff#32).getLsbD i = decide (i.1 < 31) := by decide
  apply eq_of_getLsbD_eq
  intro i inside
  have shifted : (mask bits).getLsbD i = (decide (i < 31) && bits.msb) := by
    rw [mask, getLsbD_ushiftRight, getLsbD_sshiftRight,
      if_neg (by omega : ¬ 31 + (1 + i) < 32)]
    congr 1
    rw [← decide_not]
    exact decide_eq_decide.mpr (by omega)
  cases sign : bits.msb with
  | false => simp [shifted, sign]
  | true =>
    rw [shifted, sign, Bool.and_true]
    exact (ones ⟨i, inside⟩).symm

@[simp] theorem toF32_fromF32 (bits : BitVec 32) : (fromF32 bits).toF32 = bits := by
  have sign : (bits ^^^ mask bits).msb = bits.msb := by
    rw [msb_xor, mask_eq]
    cases bits.msb <;> rfl
  have same : mask (bits ^^^ mask bits) = mask bits := by
    rw [mask_eq, sign, ← mask_eq]
  rw [toF32, fromF32, same, BitVec.xor_assoc, BitVec.xor_self, BitVec.xor_zero]

end Distance

/-- The negation of an `f32` flips its sign bit. -/
def negF32 (bits : BitVec 32) : BitVec 32 := bits ^^^ 0x80000000#32

end VectorChord.Maxsim
