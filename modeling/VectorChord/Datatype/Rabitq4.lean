import VectorChord.Codec.Bytes
import VectorChord.Rabitq.Halfbyte
import VectorChord.Transition.Fallible

/-!
# Values of type `rabitq4`

A value comes in as a text or as a binary message, is stored as a datum with a 16-bit
dimension, and is checked when it is read back.
-/

namespace VectorChord.Datatype

open Codec Rabitq.Halfbyte Transition List Fallible

/-! ## Vectors -/

/-- The bits of an `f32`. -/
abbrev F32 := BitVec 32

/-- `Rabitq4Borrowed`, as `new_unchecked` makes it. -/
structure Rabitq4Borrowed where
  dim : Nat
  sumOfX2 : F32
  normOfLattice : F32
  sumOfCode : F32
  sumOfAbsX : F32
  packedCode : List UInt8
  deriving DecidableEq

namespace Rabitq4Borrowed

/-- `new_checked`.  The limit is one of the packed code and not of the dimension. -/
def newChecked (self : Rabitq4Borrowed) : Option Rabitq4Borrowed :=
  if ¬ (1 ≤ self.packedCode.length ∧ self.packedCode.length ≤ 65535) then none
  else if (self.dim + 1) / 2 ≠ self.packedCode.length then none
  else if self.dim % 2 = 1 ∧ self.packedCode.getLast?.getD 0 >>> 4 ≠ 0 then none
  else some self

/-- `unpacked_code`. -/
def unpackedCode (self : Rabitq4Borrowed) : List UInt8 :=
  (unpackCode self.packedCode).take self.dim

end Rabitq4Borrowed

/-! ## Storage -/

/-- `Rabitq4Header` and the elements behind it. -/
structure Rabitq4Header where
  varlena : UInt32
  dim : UInt16
  unused : UInt16
  sumOfX2 : F32
  normOfLattice : F32
  sumOfCode : F32
  sumOfAbsX : F32
  elements : List UInt8
  deriving DecidableEq

namespace Rabitq4Header

/-- `size_of_by_len`. -/
def sizeOfByLen (length : Nat) : Except String Nat :=
  if 65535 < length then throw "vector is too large" else pure (24 + length)

/-- `size_of_by_dim`. -/
def sizeOfByDim (dim : Nat) : Except String Nat := sizeOfByLen ((dim + 1) / 2)

/-- `as_borrowed`. -/
def asBorrowed (self : Rabitq4Header) : Except String Rabitq4Borrowed :=
  (Rabitq4Borrowed.newChecked {
    dim := self.dim.toNat
    sumOfX2 := self.sumOfX2
    normOfLattice := self.normOfLattice
    sumOfCode := self.sumOfCode
    sumOfAbsX := self.sumOfAbsX
    packedCode := self.elements.take ((self.dim.toNat + 1) / 2) }).elim (throw "invalid data") pure

/-- The checks of `Rabitq4Input::from_ptr`. -/
def fromPtr (self : Rabitq4Header) : Except String Unit := do
  let size ← sizeOfByDim self.dim.toNat
  if size ≠ self.varlena.toNat >>> 2 then throw "assertion failed"
  else if self.unused ≠ 0 then throw "assertion failed"
  else pure ()

/-- `Rabitq4Output::new`. -/
def ofVector (vector : Rabitq4Borrowed) : Except String Rabitq4Header := do
  let size ← sizeOfByLen vector.packedCode.length
  pure {
    varlena := UInt32.ofNat (size <<< 2)
    dim := UInt16.ofNat vector.dim
    unused := 0
    sumOfX2 := vector.sumOfX2
    normOfLattice := vector.normOfLattice
    sumOfCode := vector.sumOfCode
    sumOfAbsX := vector.sumOfAbsX
    elements := vector.packedCode }

end Rabitq4Header

/-- Check a vector and store it. -/
def store (vector : Rabitq4Borrowed) (message : String) : Except String Rabitq4Header :=
  match vector.newChecked with
  | none => throw message
  | some vector => Rabitq4Header.ofVector vector

/-! ## Texts -/

/-- `f32::from_str`. -/
class ParseF32 where
  parse : List UInt8 → Option F32

/-- The digits of a `u8`. -/
def parseDigits : (value : Nat) → List UInt8 → Option UInt8
  | value, [] => some (UInt8.ofNat value)
  | value, digit :: digits =>
    if 48 ≤ digit ∧ digit ≤ 57 ∧ value * 10 + (digit.toNat - 48) ≤ 255 then
      parseDigits (value * 10 + (digit.toNat - 48)) digits
    else none

/-- `u8::from_str`: digits, with a plus sign or without. -/
def parseU8 : List UInt8 → Option UInt8
  | [] => none
  | first :: digits =>
    if first = 43 then
      if digits.isEmpty then none else parseDigits 0 digits
    else parseDigits 0 (first :: digits)

/-- The bytes of a number: digits, letters, `.`, `+` and `-`. -/
def isNumberByte (byte : UInt8) : Bool :=
  (48 ≤ byte && byte ≤ 57) || (97 ≤ byte && byte ≤ 122) || (65 ≤ byte && byte ≤ 90) ||
    byte == 46 || byte == 43 || byte == 45

/-- Skip spaces up to an opening bracket. -/
def skipTo (bracket : UInt8) : List UInt8 → Except String (List UInt8)
  | [] => throw "incorrect vector"
  | byte :: input =>
    if byte = 32 then skipTo bracket input
    else if byte = bracket then pure input
    else throw "incorrect vector"

/-- `parse().expect(..)`. -/
def expectNumber {α : Type} (number : Option α) : Except String α :=
  number.elim (throw "failed to parse number") pure

/-- The numbers up to a closing bracket, and the input behind it.  Spaces are ignored, also in
numbers. -/
def readNumbers {α : Type} (parse : List UInt8 → Option α) (bracket : UInt8) :
    Option (List UInt8) → List UInt8 → Except String (List α × List UInt8)
  | _, [] => throw "incorrect vector"
  | number, byte :: input =>
    if byte = 32 then readNumbers parse bracket number input
    else if isNumberByte byte then
      readNumbers parse bracket (some (number.getD [] ++ [byte])) input
    else
      match number with
      | none => if byte = bracket then pure ([], input) else throw "incorrect vector"
      | some number =>
        if byte = 44 then do
          let value ← expectNumber (parse number)
          let (values, rest) ← readNumbers parse bracket none input
          pure (value :: values, rest)
        else if byte = bracket then do
          let value ← expectNumber (parse number)
          pure ([value], input)
        else throw "incorrect vector"

/-- The parser of `_vchord_rabitq4_in`: four numbers in parentheses and the codes in
brackets.  What is behind them is not read. -/
def readText [ParseF32] (input : List UInt8) : Except String (List F32 × List UInt8) := do
  let input ← skipTo 40 input
  let (p0, input) ← readNumbers ParseF32.parse 41 none input
  let input ← skipTo 91 input
  let (p1, _) ← readNumbers parseU8 93 none input
  pure (p0, p1)

/-- `_vchord_rabitq4_in`. -/
def rabitq4In [ParseF32] (input : List UInt8) : Except String Rabitq4Header := do
  let (p0, p1) ← readText input
  match p0 with
  | [sumOfX2, normOfLattice, sumOfCode, sumOfAbsX] =>
    if p1.isEmpty then throw "vector must have at least 1 dimension"
    else store ⟨p1.length % 2 ^ 32, sumOfX2, normOfLattice, sumOfCode, sumOfAbsX, packCode p1⟩
          "incorrect vector"
  | _ => throw "incorrect vector"

/-! ## Messages -/

/-- `StringInfoData`. -/
structure StringInfo where
  data : List UInt8
  cursor : Nat
  deriving DecidableEq

/-- Bytes in network order. -/
def be (width value : Nat) : List UInt8 := (le width value).reverse

/-- The number of bytes in network order. -/
def fromBe (bytes : List UInt8) : Nat := fromLe bytes.reverse

/-- The next bytes of a message. -/
def readBytes (count : Nat) : Fallible String StringInfo (List UInt8) := do
  let buf ← get
  Fallible.require (buf.cursor < 2 ^ 31 - 1 - count ∧ buf.cursor + count ≤ buf.data.length)
    "assertion failed"
  set { buf with cursor := buf.cursor + count }
  pure ((buf.data.drop buf.cursor).take count)

/-- The loop over the packed code. -/
def readCode : (count : Nat) → Fallible String StringInfo (List UInt8)
  | 0 => pure []
  | count + 1 => do
    let bytes ← readBytes 1
    let code ← readCode count
    pure (bytes ++ code)

/-- The fields of a message. -/
def readMessage : Fallible String StringInfo Rabitq4Borrowed := do
  let dim ← readBytes 4
  let sumOfX2 ← readBytes 4
  let normOfLattice ← readBytes 4
  let sumOfCode ← readBytes 4
  let sumOfAbsX ← readBytes 4
  let packedCode ← readCode ((fromBe dim + 1) / 2)
  pure ⟨fromBe dim, .ofNat 32 (fromBe sumOfX2), .ofNat 32 (fromBe normOfLattice),
    .ofNat 32 (fromBe sumOfCode), .ofNat 32 (fromBe sumOfAbsX), packedCode⟩

/-- `_vchord_rabitq4_recv`. -/
def rabitq4Recv : Fallible String StringInfo Rabitq4Header := do
  let vector ← readMessage
  Fallible.lift (store vector "detect data corruption")

/-- `_vchord_rabitq4_send`. -/
def rabitq4Send (vector : Rabitq4Borrowed) : List UInt8 :=
  be 4 vector.dim ++ be 4 vector.sumOfX2.toNat ++ be 4 vector.normOfLattice.toNat ++
    be 4 vector.sumOfCode.toNat ++ be 4 vector.sumOfAbsX.toNat ++ vector.packedCode

/-! ## Messages that were sent -/

section

variable {data bytes rest : List UInt8} {cursor : Nat}

theorem readBytes_eq {count : Nat} (positive : 0 < count) (length : bytes.length = count)
    (ahead : data.drop cursor = bytes ++ rest) (bounded : cursor + count < 2 ^ 31 - 1) :
    (readBytes count).step ⟨data, cursor⟩ = (.ok bytes, ⟨data, cursor + count⟩) ∧
      data.drop (cursor + count) = rest := by
  have inside : cursor + count ≤ data.length := by
    have total := congrArg List.length ahead
    rw [length_drop, length_append, length] at total
    omega
  constructor
  · rw [readBytes, step_bind_get,
      step_bind_ok (step_require ⟨Nat.lt_sub_of_add_lt bounded, inside⟩ _ _)]
    change (Except.ok ((data.drop cursor).take count), _) = _
    rw [ahead, ← length, take_left]
  · rw [← drop_drop, ahead, ← length, drop_left]

theorem readCode_eq (ahead : data.drop cursor = bytes ++ rest)
    (bounded : cursor + bytes.length < 2 ^ 31 - 1) :
    (readCode bytes.length).step ⟨data, cursor⟩ = (.ok bytes, ⟨data, cursor + bytes.length⟩) := by
  induction bytes generalizing cursor with
  | nil => rfl
  | cons byte bytes ih =>
    rw [length_cons] at bounded
    obtain ⟨first, ahead'⟩ := @readBytes_eq data [byte] (bytes ++ rest) cursor 1
      Nat.one_pos rfl ahead (by omega)
    have others := ih ahead' (by omega)
    rw [length_cons, readCode, step_bind_ok first, step_bind_ok others,
      Nat.add_comm bytes.length, Nat.add_assoc]
    rfl

@[simp] theorem length_be (width value : Nat) : (be width value).length = width := by
  simp [be]

theorem fromBe_be {width value : Nat} (small : value < 256 ^ width) :
    fromBe (be width value) = value := by
  rw [fromBe, be, reverse_reverse, fromLe_le_of_lt small]

theorem ofNat_fromBe (value : F32) : BitVec.ofNat 32 (fromBe (be 4 value.toNat)) = value := by
  rw [fromBe_be value.isLt, BitVec.ofNat_toNat, BitVec.setWidth_eq]

end

variable {vector : Rabitq4Borrowed} {datum : Rabitq4Header} {message : String}

/-- A message is read as the vector that was sent. -/
theorem readMessage_rabitq4Send (small : vector.dim < 2 ^ 31)
    (half : (vector.dim + 1) / 2 = vector.packedCode.length) :
    (readMessage.step ⟨rabitq4Send vector, 0⟩).1 = .ok vector := by
  generalize sent : rabitq4Send vector = data
  have start : data.drop 0 = be 4 vector.dim ++ (be 4 vector.sumOfX2.toNat ++
      (be 4 vector.normOfLattice.toNat ++ (be 4 vector.sumOfCode.toNat ++
        (be 4 vector.sumOfAbsX.toNat ++ (vector.packedCode ++ []))))) := by
    rw [← sent]
    simp [rabitq4Send]
  have four : 0 < 4 := by decide
  obtain ⟨dim, ahead⟩ := readBytes_eq four (length_be 4 _) start (by decide)
  obtain ⟨sumOfX2, ahead⟩ := readBytes_eq four (length_be 4 _) ahead (by decide)
  obtain ⟨normOfLattice, ahead⟩ := readBytes_eq four (length_be 4 _) ahead (by decide)
  obtain ⟨sumOfCode, ahead⟩ := readBytes_eq four (length_be 4 _) ahead (by decide)
  obtain ⟨sumOfAbsX, ahead⟩ := readBytes_eq four (length_be 4 _) ahead (by decide)
  have code := readCode_eq ahead (by omega)
  have exact_dim : fromBe (be 4 vector.dim) = vector.dim := fromBe_be (by omega)
  rw [readMessage, step_bind_ok dim, step_bind_ok sumOfX2,
    step_bind_ok normOfLattice, step_bind_ok sumOfCode,
    step_bind_ok sumOfAbsX, exact_dim, half, step_bind_ok code]
  change Except.ok (Rabitq4Borrowed.mk _ _ _ _ _ _) = _
  rw [ofNat_fromBe, ofNat_fromBe, ofNat_fromBe, ofNat_fromBe]

/-! ## Reading back -/

/-- A datum passes the checks when it is read back and has these codes. -/
def Survives (datum : Rabitq4Header) (codes : List UInt8) : Prop :=
  datum.fromPtr = .ok () ∧ ∃ vector, datum.asBorrowed = .ok vector ∧
    vector.dim = codes.length ∧ vector.unpackedCode = codes

theorem newChecked_eq_some {checked : Rabitq4Borrowed} (done : vector.newChecked = some checked) :
    checked = vector ∧
      1 ≤ vector.packedCode.length ∧ vector.packedCode.length ≤ 65535 ∧
      (vector.dim + 1) / 2 = vector.packedCode.length := by
  unfold Rabitq4Borrowed.newChecked at done
  obtain ⟨sized, done⟩ := Option.ite_none_left_eq_some.mp done
  obtain ⟨half, done⟩ := Option.ite_none_left_eq_some.mp done
  obtain ⟨_, done⟩ := Option.ite_none_left_eq_some.mp done
  cases done
  obtain ⟨low, high⟩ := Decidable.not_not.mp sized
  exact ⟨rfl, low, high, Decidable.not_not.mp half⟩

/-- The size in the header of a datum. -/
theorem varlena_shiftRight {length : Nat} (small : length ≤ 65535) :
    (UInt32.ofNat ((24 + length) <<< 2)).toNat >>> 2 = 24 + length := by
  rw [UInt32.toNat_ofNat', Nat.shiftLeft_eq, Nat.shiftRight_eq_div_pow]
  omega

/-- The dimension in the header has 16 bits, and the size tells if it was cut. -/
theorem fromPtr_eq_ok_iff (small : vector.packedCode.length ≤ 65535)
    (half : (vector.dim + 1) / 2 = vector.packedCode.length)
    (stored : Rabitq4Header.ofVector vector = .ok datum) :
    datum.fromPtr = .ok () ↔ vector.dim ≤ 65535 := by
  have sized : Rabitq4Header.sizeOfByLen vector.packedCode.length =
      .ok (24 + vector.packedCode.length) := if_neg (Nat.not_lt.mpr small)
  have dim : (UInt16.ofNat vector.dim).toNat = vector.dim % 65536 := UInt16.toNat_ofNat'
  have sized' : Rabitq4Header.sizeOfByDim (vector.dim % 65536) =
      .ok (24 + (vector.dim % 65536 + 1) / 2) := if_neg (by omega)
  rw [Rabitq4Header.ofVector, sized] at stored
  cases stored
  rw [Rabitq4Header.fromPtr, dim, sized']
  change (if _ then _ else if (0 : UInt16) ≠ 0 then _ else _) = _ ↔ _
  rw [varlena_shiftRight small]
  split
  next different =>
    constructor
    · intro done
      cases done
    · intro bounded
      rw [Nat.mod_eq_of_lt (Nat.lt_succ_of_le bounded), half] at different
      exact absurd rfl different
  next same =>
    constructor
    · intro _
      omega
    · intro _
      rfl

/-- What is read back from the datum of a vector. -/
theorem survives_iff (stored : store vector message = .ok datum) {codes : List UInt8}
    (length : codes.length = vector.dim) :
    Survives datum codes ↔ vector.dim ≤ 65535 ∧ vector.unpackedCode = codes := by
  unfold store at stored
  split at stored
  next => cases stored
  next checked known =>
    obtain ⟨rfl, _, small, half⟩ := newChecked_eq_some known
    rw [Survives, fromPtr_eq_ok_iff small half stored]
    apply and_congr_right
    intro bounded
    -- The dimension was not cut, so the vector itself is read back.
    have whole : datum.asBorrowed = .ok checked := by
      have dim : (UInt16.ofNat checked.dim).toNat = checked.dim :=
        UInt16.toNat_ofNat_of_lt (Nat.lt_succ_of_le bounded)
      obtain ⟨size, _, stored⟩ := bind_eq_ok.mp stored
      cases stored
      simp only [Rabitq4Header.asBorrowed, dim, half, take_length]
      rw [known]
      rfl
    rw [whole]
    constructor
    · rintro ⟨vector, same, _, codes⟩
      cases same
      exact codes
    · intro codes
      exact ⟨checked, rfl, length.symm, codes⟩

theorem length_unpackedCode (half : (vector.dim + 1) / 2 = vector.packedCode.length) :
    vector.unpackedCode.length = vector.dim := by
  rw [Rabitq4Borrowed.unpackedCode, length_take, length_unpackCode]
  omega

theorem newChecked_of_store (stored : store vector message = .ok datum) :
    vector.newChecked = some vector := by
  unfold store at stored
  split at stored
  next => cases stored
  next checked known =>
    obtain ⟨rfl, _⟩ := newChecked_eq_some known
    exact known

/-- The datum of a text has its codes exactly if there are at most 65535 of them and each has
four bits. -/
theorem rabitq4In_survives_iff [ParseF32] {input : List UInt8}
    (accepted : rabitq4In input = .ok datum) :
    ∃ p0 codes, readText input = .ok (p0, codes) ∧
      (Survives datum codes ↔ codes.length ≤ 65535 ∧ ∀ code ∈ codes, code < 16) := by
  obtain ⟨⟨p0, codes⟩, read, accepted⟩ := bind_eq_ok.mp accepted
  refine ⟨p0, codes, read, ?_⟩
  simp only at accepted
  split at accepted
  next sumOfX2 normOfLattice sumOfCode sumOfAbsX =>
    obtain ⟨_, accepted⟩ := guard_eq_ok.mp accepted
    obtain ⟨_, _, small, half⟩ := newChecked_eq_some (newChecked_of_store accepted)
    simp only [length_packCode] at small half
    -- A longer list of codes would have been refused, so its length fits into 32 bits.
    have exact_length : codes.length % 2 ^ 32 = codes.length := by
      omega
    rw [exact_length] at accepted
    rw [survives_iff accepted rfl]
    exact and_congr_right fun _ => unpackCode_packCode_iff codes
  next => cases accepted

/-- The datum of a message has its codes exactly if there are at most 65535 of them. -/
theorem rabitq4Recv_survives_iff {buf buf' : StringInfo}
    (accepted : rabitq4Recv.step buf = (.ok datum, buf')) :
    ∃ vector, readMessage.step buf = (.ok vector, buf') ∧
      (Survives datum vector.unpackedCode ↔ vector.dim ≤ 65535) := by
  obtain ⟨vector, middle, read, accepted⟩ := step_bind_eq_ok.mp accepted
  rw [step_lift] at accepted
  obtain ⟨stored, rfl⟩ := Prod.mk.inj accepted
  refine ⟨vector, read, ?_⟩
  obtain ⟨_, _, _, half⟩ := newChecked_eq_some (newChecked_of_store stored)
  rw [survives_iff stored (length_unpackedCode half)]
  exact and_iff_left rfl

/-- The codes of a value survive storage exactly if the dimension fits into 16 bits and, in a
text, every code into four. -/
theorem rabitq4_survives_iff [ParseF32] :
    (∀ (input : List UInt8) (datum : Rabitq4Header), rabitq4In input = .ok datum →
      ∃ p0 codes, readText input = .ok (p0, codes) ∧
        (Survives datum codes ↔ codes.length ≤ 65535 ∧ ∀ code ∈ codes, code < 16)) ∧
    ∀ (buf buf' : StringInfo) (datum : Rabitq4Header),
      rabitq4Recv.step buf = (.ok datum, buf') →
      ∃ vector, readMessage.step buf = (.ok vector, buf') ∧
        (Survives datum vector.unpackedCode ↔ vector.dim ≤ 65535) :=
  ⟨fun _ _ accepted => rabitq4In_survives_iff accepted,
    fun _ _ _ accepted => rabitq4Recv_survives_iff accepted⟩

/-- The bits of the digits below five. -/
@[reducible] def parseDigit : ParseF32 where
  parse text := [(utf8 "0", (0 : F32)), (utf8 "1", 0x3f800000), (utf8 "2", 0x40000000),
    (utf8 "3", 0x40400000), (utf8 "4", 0x40800000)].lookup text

/-- A vector of three codes. -/
def threeCodes : Rabitq4Borrowed :=
  ⟨3, 0x3f800000, 0x40000000, 0x40400000, 0x40800000, packCode [1, 15, 7]⟩

theorem rabitq4_survives_threeCodes :
    let _ := parseDigit
    (∃ datum, rabitq4In (utf8 "(1, 2, 3, 4)[1, 15, 7]") = .ok datum ∧
      Survives datum [1, 15, 7]) ∧
    ∃ datum buf', rabitq4Recv.step ⟨rabitq4Send threeCodes, 0⟩ = (.ok datum, buf') ∧
      Survives datum [1, 15, 7] := by
  intro _
  constructor
  · obtain ⟨p0, codes, read, iff⟩ :=
      rabitq4_survives_iff.1 (utf8 "(1, 2, 3, 4)[1, 15, 7]") _ rfl
    have known : readText (utf8 "(1, 2, 3, 4)[1, 15, 7]") =
      .ok ([0x3f800000, 0x40000000, 0x40400000, 0x40800000], [1, 15, 7]) := rfl
    cases read
    exact ⟨_, rfl, iff.mpr ⟨by decide, by simp⟩⟩
  · obtain ⟨vector, read, iff⟩ := rabitq4_survives_iff.2 ⟨rabitq4Send threeCodes, 0⟩ _ _ rfl
    have known : readMessage.step ⟨rabitq4Send threeCodes, 0⟩ =
      (.ok threeCodes, ⟨rabitq4Send threeCodes, 22⟩) := rfl
    cases read
    exact ⟨_, _, rfl, iff.mpr (by decide)⟩

/-- A vector of 65536 codes, which the check of vectors accepts. -/
def wideVector : Rabitq4Borrowed := ⟨65536, 0, 0, 0, 0, List.replicate 32768 0⟩

theorem newChecked_wideVector : wideVector.newChecked = some wideVector := by
  have length : wideVector.packedCode.length = 32768 := length_replicate
  rw [Rabitq4Borrowed.newChecked, length, if_neg (by decide), if_neg (by decide),
    if_neg fun odd => absurd odd.1 (by decide)]

theorem rabitq4_lost :
    let _ := parseDigit
    (∃ datum, rabitq4In (utf8 "(0,0,0,0)[16,0]") = .ok datum ∧
      readText (utf8 "(0,0,0,0)[16,0]") = .ok ([0, 0, 0, 0], [16, 0]) ∧
      ¬ Survives datum [16, 0]) ∧
    ∃ datum, (rabitq4Recv.step ⟨rabitq4Send wideVector, 0⟩).1 = .ok datum ∧
      ¬ Survives datum wideVector.unpackedCode := by
  intro _
  constructor
  · refine ⟨_, rfl, rfl, ?_⟩
    obtain ⟨p0, codes, read, iff⟩ := @rabitq4In_survives_iff _ _ (utf8 "(0,0,0,0)[16,0]") rfl
    have known : readText (utf8 "(0,0,0,0)[16,0]") = .ok ([0, 0, 0, 0], [16, 0]) := rfl
    rw [known] at read
    cases read
    rw [iff]
    decide
  · have length : wideVector.packedCode.length = 32768 := length_replicate
    have half : (wideVector.dim + 1) / 2 = wideVector.packedCode.length := by
      rw [length]
      decide
    have read := @readMessage_rabitq4Send wideVector (by decide) half
    rcases whole : readMessage.step ⟨rabitq4Send wideVector, 0⟩ with ⟨result, buf'⟩
    rw [whole] at read
    cases read
    have accepted : rabitq4Recv.step ⟨rabitq4Send wideVector, 0⟩ =
        (store wideVector "detect data corruption", buf') := by
      rw [rabitq4Recv, step_bind_ok whole, step_lift]
    have stored : ∃ datum, store wideVector "detect data corruption" = .ok datum := by
      rw [store, newChecked_wideVector]
      change ∃ datum, Rabitq4Header.ofVector wideVector = .ok datum
      rw [Rabitq4Header.ofVector, length]
      exact ⟨_, rfl⟩
    obtain ⟨datum, stored⟩ := stored
    rw [stored] at accepted
    refine ⟨datum, congrArg Prod.fst accepted, ?_⟩
    obtain ⟨vector, read', iff⟩ := rabitq4Recv_survives_iff accepted
    rw [whole] at read'
    cases (Prod.mk.inj read').1
    rw [iff]
    decide

end VectorChord.Datatype
