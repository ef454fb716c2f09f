import VectorChord.Codec.Bytes
import VectorChord.Collections.Checked
import VectorChord.Transition.Fallible

/-!
# Reading bytes

A reader moves over a list of bytes and fails where they end.  `Reads parser bytes value`
says that a parser takes exactly `bytes` off the input, whatever follows, and returns
`value`; parsers that do so compose like the bytes they read.
-/

namespace VectorChord.Codec

open Collections Transition List Fallible

/-- A position in a list of bytes. -/
structure Reader where
  bytes : List UInt8
  offset : Nat
  deriving DecidableEq, Repr

namespace Reader

/-- The bytes ahead. -/
def rest (self : Reader) : List UInt8 := self.bytes.drop self.offset

/-- Take a number of bytes, with errors for an offset out of range and for too few bytes. -/
def takeOr {ε : Type} (overflow truncated : ε) (count : Nat) :
    Fallible ε Reader (List UInt8) := do
  let self ← get
  match checkedAdd self.offset count with
  | none => throw overflow
  | some stop =>
    if self.bytes.length < stop then throw truncated
    else do
      set { self with offset := stop }
      pure (self.rest.take count)

/-- Take a number of bytes. -/
def take (count : Nat) : Fallible String Reader (List UInt8) :=
  takeOr "request overflow" "truncated request" count

/-- An unsigned number of some width, with the errors of `takeOr`. -/
def unsignedOr {ε : Type} (overflow truncated : ε) (width : Nat) : Fallible ε Reader Nat := do
  let bytes ← takeOr overflow truncated width
  pure (fromLe bytes)

/-- An unsigned number of some width. -/
def unsigned (width : Nat) : Fallible String Reader Nat :=
  unsignedOr "request overflow" "truncated request" width

/-- A signed number of some width, in two's complement. -/
def signed (width : Nat) : Fallible String Reader Int := do
  let bytes ← take width
  pure (BitVec.ofNat (8 * width) (fromLe bytes)).toInt

/-- Fail unless all bytes have been taken. -/
def finishOr {ε : Type} (error : ε) : Fallible ε Reader Unit := do
  let self ← get
  Fallible.require (self.offset = self.bytes.length) error

end Reader

variable {ε : Type}

/-- What was taken lay ahead. -/
theorem takeOr_eq_ok {overflow truncated : ε} {count : Nat} {reader reader' : Reader}
    {taken : List UInt8}
    (done : (Reader.takeOr overflow truncated count).step reader = (.ok taken, reader')) :
    taken.length = count ∧ reader.rest = taken ++ reader'.rest ∧
      reader'.bytes = reader.bytes ∧ reader'.offset = reader.offset + count := by
  rw [Reader.takeOr, step_bind_get] at done
  cases sum : checkedAdd reader.offset count with
  | none =>
    rw [sum] at done
    cases done
  | some stop =>
    have known := (eq_of_checkedAdd sum).1
    rw [sum] at done
    dsimp only at done
    split at done
    next => cases done
    next inside =>
      cases done
      have ahead : count ≤ (reader.bytes.drop reader.offset).length := by
        rw [length_drop]
        omega
      refine ⟨?_, ?_, rfl, known⟩
      · rw [Reader.rest, length_take, Nat.min_eq_left ahead]
      · change reader.rest = reader.rest.take count ++ reader.bytes.drop stop
        rw [known, Reader.rest, ← drop_drop, take_append_drop]

/-- In front of some tails, the parser takes exactly these bytes and returns the value. -/
def ReadsBefore {ε α : Type} (tails : List UInt8 → Prop) (parser : Fallible ε Reader α)
    (bytes : List UInt8) (value : α) : Prop :=
  ∀ front tail : List UInt8, tails tail → (front ++ bytes ++ tail).length ≤ usizeMax →
    parser.step ⟨front ++ bytes ++ tail, front.length⟩ =
      (.ok value, ⟨front ++ bytes ++ tail, (front ++ bytes).length⟩)

/-- The parser takes exactly these bytes, whatever follows. -/
abbrev Reads {ε α : Type} (parser : Fallible ε Reader α) (bytes : List UInt8) (value : α) : Prop :=
  ReadsBefore (fun _ => True) parser bytes value

/-- The parser takes exactly these bytes if nothing follows. -/
abbrev ReadsAll {ε α : Type} (parser : Fallible ε Reader α) (bytes : List UInt8) (value : α) :
    Prop :=
  ReadsBefore (· = []) parser bytes value

/-- In front of some tails, the parser fails on these bytes. -/
def FailsBefore {ε α : Type} (tails : List UInt8 → Prop) (parser : Fallible ε Reader α)
    (bytes : List UInt8) (error : ε) : Prop :=
  ∀ front tail : List UInt8, tails tail → (front ++ bytes ++ tail).length ≤ usizeMax →
    (parser.step ⟨front ++ bytes ++ tail, front.length⟩).1 = .error error

variable {α β : Type} {tails : List UInt8 → Prop} {parser : Fallible ε Reader α}
  {next : α → Fallible ε Reader β} {bytes bytes' : List UInt8} {value : α} {result : β}
  {error : ε}

theorem ReadsAll.run (reads : ReadsAll parser bytes value) (bounded : bytes.length ≤ usizeMax) :
    parser.step ⟨bytes, 0⟩ = (.ok value, ⟨bytes, bytes.length⟩) := by
  have done := reads [] [] rfl
  rw [append_nil] at done
  exact done bounded

theorem step_finishOr_bind {next : Unit → Fallible ε Reader α} (error : ε) (reader : Reader) :
    (Reader.finishOr error >>= next).step reader =
      (Fallible.require (reader.offset = reader.bytes.length) error >>= next).step reader := rfl

theorem ReadsAll.finishOr_bind {next : Unit → Fallible ε Reader α} (error : ε)
    (second : ReadsAll (next ()) [] value) :
    ReadsAll (Reader.finishOr error >>= next) [] value := by
  rintro front _ rfl bounded
  rw [step_finishOr_bind, step_bind_ok (step_require (by simp) _ _)]
  exact second front [] rfl bounded

theorem FailsBefore.bind (fails : FailsBefore tails parser bytes error) :
    FailsBefore tails (parser >>= next) bytes error := by
  intro front tail fits bounded
  have failed := fails front tail fits bounded
  rcases whole : parser.step ⟨front ++ bytes ++ tail, front.length⟩ with ⟨result, reader⟩
  rw [whole] at failed
  dsimp only at failed
  rw [failed] at whole
  rw [step_bind_error whole]

namespace Reads

variable {count : Nat}

theorem pure (value : α) : ReadsBefore tails (Pure.pure value : Fallible ε Reader α) [] value := by
  intro front tail _ _
  rw [append_nil]
  rfl

/-- The next parser goes on behind the bytes. -/
theorem step_bind (first : Reads parser bytes value) {front tail : List UInt8}
    (bounded : (front ++ bytes ++ bytes' ++ tail).length ≤ usizeMax) :
    (parser >>= next).step ⟨front ++ bytes ++ bytes' ++ tail, front.length⟩ =
      (next value).step ⟨front ++ bytes ++ bytes' ++ tail, (front ++ bytes).length⟩ := by
  rw [append_assoc (front ++ bytes)] at bounded ⊢
  rw [step_bind_ok (first front (bytes' ++ tail) trivial bounded)]

theorem bind (first : Reads parser bytes value)
    (second : ReadsBefore tails (next value) bytes' result) :
    ReadsBefore tails (parser >>= next) (bytes ++ bytes') result := by
  intro front tail fits bounded
  rw [← append_assoc front] at bounded ⊢
  rw [first.step_bind bounded]
  exact second (front ++ bytes) tail fits bounded

theorem bind_fails (first : Reads parser bytes value)
    (second : FailsBefore tails (next value) bytes' error) :
    FailsBefore tails (parser >>= next) (bytes ++ bytes') error := by
  intro front tail fits bounded
  rw [← append_assoc front] at bounded ⊢
  rw [first.step_bind bounded]
  exact second (front ++ bytes) tail fits bounded

/-- A parser that reads nothing in front of another. -/
theorem bind_nil (first : Reads parser [] value)
    (second : ReadsBefore tails (next value) bytes result) :
    ReadsBefore tails (parser >>= next) bytes result :=
  first.bind second

/-- A parser that reads nothing behind another. -/
theorem bind_end (first : Reads parser bytes value)
    (second : ReadsBefore tails (next value) [] result) :
    ReadsBefore tails (parser >>= next) bytes result := by
  have whole := first.bind second
  rw [append_nil] at whole
  exact whole

/-- A check that holds reads nothing. -/
theorem require {accepted : Prop} [Decidable accepted] (holds : accepted) (error : ε) :
    Reads (Fallible.require accepted error) [] () := by
  intro front tail _ _
  rw [append_nil]
  exact step_require holds error _

/-- A computation that succeeds reads nothing. -/
theorem lift {computed : Except ε α} (known : computed = .ok value) :
    Reads (Fallible.lift computed) [] value := by
  rw [known]
  exact pure value

theorem takeOr (overflow truncated : ε) (length : bytes.length = count) :
    Reads (Reader.takeOr overflow truncated count) bytes bytes := by
  intro front tail _ bounded
  have inside : front.length + count ≤ (front ++ bytes ++ tail).length := by
    rw [length_append, length_append, length]
    exact Nat.le_add_right _ _
  have ahead : ((front ++ bytes ++ tail).drop front.length).take count = bytes := by
    rw [append_assoc, drop_left, ← length, take_left]
  rw [Reader.takeOr, step_bind_get, checkedAdd_eq (Nat.le_trans inside bounded)]
  dsimp only
  rw [if_neg (Nat.not_lt.mpr inside), step_bind_ok (step_set _ _), Reader.rest,
    ahead, length_append, length]
  rfl

theorem take (length : bytes.length = count) :
    Reads (Reader.take count) bytes bytes :=
  takeOr _ _ length

theorem unsignedOr (overflow truncated : ε) {width value : Nat} (small : value < 256 ^ width) :
    Reads (Reader.unsignedOr overflow truncated width) (le width value) value := by
  apply (takeOr _ _ (length_le width value)).bind_end
  rw [fromLe_le_of_lt small]
  exact pure value

theorem unsigned {width value : Nat} (small : value < 256 ^ width) :
    Reads (Reader.unsigned width) (le width value) value :=
  unsignedOr _ _ small

theorem signed {width : Nat} {value : Int}
    (small : (BitVec.ofInt (8 * width) value).toInt = value) :
    Reads (Reader.signed width) (le width (BitVec.ofInt (8 * width) value).toNat) value := by
  have fits : (BitVec.ofInt (8 * width) value).toNat < 256 ^ width := by
    have bound := (BitVec.ofInt (8 * width) value).isLt
    rw [Nat.pow_mul] at bound
    exact bound
  apply (take (length_le width _)).bind_end
  rw [fromLe_le_of_lt fits, BitVec.ofNat_toNat, BitVec.setWidth_eq, small]
  exact pure value

end Reads

/-! ## What is accepted -/

/-- Where the parser succeeds, it has moved over bytes that satisfy the postcondition with
the value it returns. -/
def Accepts {ε α : Type} (parser : Fallible ε Reader α) (post : List UInt8 → α → Prop) : Prop :=
  ∀ (reader reader' : Reader) (value : α), parser.step reader = (.ok value, reader') →
    reader'.bytes = reader.bytes ∧ ∃ taken : List UInt8, reader.rest = taken ++ reader'.rest ∧
      reader'.offset = reader.offset + taken.length ∧ post taken value

namespace Accepts

variable {ε α β : Type} {post : List UInt8 → α → Prop} {parser : Fallible ε Reader α}
  {count width : Nat}

theorem pure {value : α} (holds : post [] value) :
    Accepts (Pure.pure value : Fallible ε Reader α) post := by
  intro reader reader' value' done
  cases done
  exact ⟨rfl, [], rfl, rfl, holds⟩

theorem throw (error : ε) : Accepts (throw error : Fallible ε Reader α) post := by
  intro reader reader' value done
  cases done

theorem mono {post' : List UInt8 → α → Prop} (accepts : Accepts parser post)
    (weaker : ∀ taken value, post taken value → post' taken value) : Accepts parser post' := by
  intro reader reader' value done
  obtain ⟨same, taken, ahead, moved, holds⟩ := accepts reader reader' value done
  exact ⟨same, taken, ahead, moved, weaker taken value holds⟩

/-- What the first parser has accepted is known to the next one. -/
theorem bind {next : α → Fallible ε Reader β} {post' : List UInt8 → β → Prop}
    (first : Accepts parser post) (second : ∀ taken value, post taken value →
      Accepts (next value) fun taken' result => post' (taken ++ taken') result) :
    Accepts (parser >>= next) post' := by
  intro reader reader' result done
  obtain ⟨value, middle, first', done⟩ := step_bind_eq_ok.mp done
  obtain ⟨same, taken, ahead, moved, holds⟩ := first reader middle value first'
  obtain ⟨same', taken', ahead', moved', holds'⟩ :=
    second taken value holds middle reader' result done
  refine ⟨same'.trans same, taken ++ taken', ?_, ?_, holds'⟩
  · rw [ahead, ahead', append_assoc]
  · rw [moved', moved, length_append, add_assoc]

theorem require_bind {accepted : Prop} [Decidable accepted] {error : ε}
    {next : Unit → Fallible ε Reader α} (accepts : accepted → Accepts (next ()) post) :
    Accepts (Fallible.require accepted error >>= next) post := by
  intro reader reader' value done
  obtain ⟨holds, rest⟩ := step_require_bind_eq_ok.mp done
  exact accepts holds reader reader' value rest

theorem require {accepted : Prop} [Decidable accepted] {error : ε} {post : List UInt8 → Unit → Prop}
    (holds : accepted → post [] ()) : Accepts (Fallible.require accepted error) post := by
  intro reader reader' value done
  unfold Fallible.require at done
  split at done
  next accepted =>
    cases done
    exact ⟨rfl, [], rfl, rfl, holds accepted⟩
  next => cases done

theorem lift_bind {computed : Except ε β} {next : β → Fallible ε Reader α}
    (accepts : ∀ value, computed = .ok value → Accepts (next value) post) :
    Accepts (Fallible.lift computed >>= next) post := by
  intro reader reader' value done
  obtain ⟨result, known, rest⟩ := step_lift_bind_eq_ok.mp done
  exact accepts result known reader reader' value rest

theorem takeOr {overflow truncated : ε} :
    Accepts (Reader.takeOr overflow truncated count) fun taken value =>
      value = taken ∧ taken.length = count := by
  intro reader reader' taken done
  obtain ⟨length, ahead, same, moved⟩ := takeOr_eq_ok done
  exact ⟨same, taken, ahead, moved.trans (congrArg _ length.symm), rfl, length⟩

/-- The bytes of a number are those of the number. -/
theorem unsignedOr_bind {overflow truncated : ε} {next : Nat → Fallible ε Reader α}
    (accepts : ∀ value, value < 256 ^ width →
      Accepts (next value) fun taken result => post (le width value ++ taken) result) :
    Accepts (Reader.unsignedOr overflow truncated width >>= next) post := by
  refine bind (bind takeOr ?_ : Accepts _ fun taken value =>
    taken = le width value ∧ value < 256 ^ width) ?_
  · rintro _ taken ⟨rfl, rfl⟩
    apply pure
    rw [append_nil, le_fromLe]
    exact ⟨rfl, fromLe_lt taken⟩
  · rintro _ value ⟨rfl, small⟩
    exact accepts value small

theorem finishOr_bind {error : ε} {next : Unit → Fallible ε Reader α}
    (accepts : Accepts (next ()) post) : Accepts (Reader.finishOr error >>= next) post := by
  intro reader reader' value done
  rw [step_finishOr_bind] at done
  exact accepts reader reader' value (step_require_bind_eq_ok.mp done).2

end Accepts

/-- The parser succeeds only where all bytes are read. -/
def Ends {ε α : Type} (parser : Fallible ε Reader α) : Prop :=
  ∀ (reader reader' : Reader) (value : α), parser.step reader = (.ok value, reader') →
    reader'.offset = reader'.bytes.length

theorem Ends.bind (ends : ∀ value, Ends (next value)) : Ends (parser >>= next) := by
  intro reader reader' result done
  obtain ⟨value, middle, _, second⟩ := step_bind_eq_ok.mp done
  exact ends value middle reader' result second

theorem Ends.finishOr_bind {error : ε} {next : Unit → Fallible ε Reader α}
    (stays : Accepts (next ()) fun taken _ => taken = []) :
    Ends (Reader.finishOr error >>= next) := by
  intro reader reader' value done
  rw [step_finishOr_bind] at done
  obtain ⟨ended, done⟩ := step_require_bind_eq_ok.mp done
  obtain ⟨same, _, _, moved, rfl⟩ := stays reader reader' value done
  rw [same, moved, ended]
  rfl

/-- A parser that has to end where the bytes do takes them all. -/
theorem Accepts.all {post : List UInt8 → α → Prop} {reader : Reader} (accepts : Accepts parser post)
    (ends : Ends parser) (done : parser.step ⟨bytes, 0⟩ = (.ok value, reader)) :
    reader.offset = bytes.length ∧ post bytes value := by
  obtain ⟨same, taken, ahead, moved, holds⟩ := accepts _ _ _ done
  have stop := ends _ _ _ done
  rw [same] at stop
  have nothing : reader.rest = [] := by
    rw [Reader.rest, same, stop]
    exact drop_length
  rw [nothing, append_nil] at ahead
  have whole : bytes = taken := ahead
  rw [whole]
  exact ⟨whole ▸ stop, holds⟩

end VectorChord.Codec
