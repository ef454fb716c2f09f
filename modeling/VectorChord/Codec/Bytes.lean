import Mathlib

/-!
# Bytes of numbers and texts

Numbers in little-endian order and texts in UTF-8, as lists of bytes.
-/

namespace VectorChord.Codec

/-! ## Numbers -/

/-- The low bytes of a number, least significant first. -/
def le : (width : Nat) → (value : Nat) → List UInt8
  | 0, _ => []
  | width + 1, value => UInt8.ofNat value :: le width (value / 256)

/-- The number of a list of bytes, least significant first. -/
def fromLe : List UInt8 → Nat
  | [] => 0
  | byte :: bytes => byte.toNat + 256 * fromLe bytes

@[simp] theorem length_le (width value : Nat) : (le width value).length = width := by
  induction width generalizing value with
  | zero => rfl
  | succ width ih => rw [le, List.length_cons, ih]

theorem fromLe_le (width value : Nat) : fromLe (le width value) = value % 256 ^ width := by
  induction width generalizing value with
  | zero => rw [le, fromLe, Nat.pow_zero, Nat.mod_one]
  | succ width ih =>
    have power : 256 ^ (width + 1) = 256 * 256 ^ width := Nat.pow_succ'
    rw [le, fromLe, ih, power, Nat.mod_mul]
    exact congrArg (· + _) UInt8.toNat_ofNat'

theorem fromLe_le_of_lt {width value : Nat} (small : value < 256 ^ width) :
    fromLe (le width value) = value := by
  rw [fromLe_le, Nat.mod_eq_of_lt small]

theorem fromLe_lt (bytes : List UInt8) : fromLe bytes < 256 ^ bytes.length := by
  induction bytes with
  | nil => exact Nat.one_pos
  | cons byte bytes ih =>
    have first : byte.toNat < 256 := byte.toNat_lt
    rw [fromLe, List.length_cons, Nat.pow_succ']
    omega

/-- A list of bytes is that of its number. -/
theorem le_fromLe (bytes : List UInt8) : le bytes.length (fromLe bytes) = bytes := by
  induction bytes with
  | nil => rfl
  | cons byte bytes ih =>
    have first : byte.toNat < 256 := byte.toNat_lt
    have low : UInt8.ofNat (byte.toNat + 256 * fromLe bytes) = byte := by
      apply UInt8.toNat.inj
      rw [UInt8.toNat_ofNat', Nat.add_mul_mod_self_left, Nat.mod_eq_of_lt first]
    have high : (byte.toNat + 256 * fromLe bytes) / 256 = fromLe bytes := by omega
    rw [fromLe, List.length_cons, le, low, high, ih]

/-! ## Texts -/

/-- The bytes of a text. -/
def utf8 (text : String) : List UInt8 := text.toByteArray.data.toList

/-- The text of a list of bytes, if it is one. -/
def fromUtf8 (bytes : List UInt8) : Option String := String.fromUTF8? ⟨bytes.toArray⟩

theorem fromUtf8_utf8 (text : String) : fromUtf8 (utf8 text) = some text := by
  have same : (⟨(utf8 text).toArray⟩ : ByteArray) = text.toByteArray := by
    rw [utf8, Array.toArray_toList]
  exact dif_pos text.isValidUTF8

theorem utf8_append (left right : String) : utf8 (left ++ right) = utf8 left ++ utf8 right := by
  simp [utf8]

/-- Each character takes its bytes. -/
theorem length_utf8 (text : String) :
    (utf8 text).length = (text.toList.map Char.utf8Size).sum := by
  rw [utf8, ← String.utf8Encode_toList, List.utf8Encode.eq_1]
  simp [List.length_flatMap, String.length_utf8EncodeChar]

theorem utf8_of_fromUtf8 {bytes : List UInt8} {text : String} (known : fromUtf8 bytes = some text) :
    utf8 text = bytes := by
  rw [fromUtf8, String.fromUTF8?] at known
  split at known
  next valid =>
    cases known
    rfl
  next => cases known

/-- A number of bytes of a text that is a whole number of characters. -/
def IsBoundary (text : String) (offset : Nat) : Prop :=
  ∃ front back, text = front ++ back ∧ (utf8 front).length = offset

theorem isBoundary_of_fromUtf8_take {text front : String} {offset : Nat}
    (inside : offset ≤ (utf8 text).length)
    (known : fromUtf8 ((utf8 text).take offset) = some front) : IsBoundary text offset := by
  have bytes := utf8_of_fromUtf8 known
  have valid : String.Pos.Raw.IsValid text ⟨offset⟩ := by
    constructor
    · exact inside
    · have same : text.toByteArray.extract 0 offset = front.toByteArray := by
        apply ByteArray.ext
        apply Array.toList_inj.mp
        simpa [utf8] using bytes.symm
      rw [same]
      exact front.isValidUTF8
  rcases String.Pos.Raw.isValid_iff_exists_append.mp valid with ⟨left, right, whole, ends⟩
  exact ⟨left, right, whole, (congrArg String.Pos.Raw.byteIdx ends).symm⟩

end VectorChord.Codec
