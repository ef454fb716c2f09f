import Mathlib

/-!
# Memory

A memory is a function from addresses.  Writes to one range leave the others alone.
-/

namespace VectorChord.Collections

open List

variable {α : Type} {memory : Nat → α}

/-- The contents of a range. -/
def slice (memory : Nat → α) (offset length : Nat) : List α :=
  (List.range length).map fun index => memory (offset + index)

/-- Write a list at an address. -/
def write (memory : Nat → α) (offset : Nat) (items : List α) : Nat → α := fun address =>
  if offset ≤ address then items.getD (address - offset) (memory address) else memory address

@[simp] theorem length_slice (memory : Nat → α) (offset length : Nat) :
    (slice memory offset length).length = length := by
  rw [slice, length_map, length_range]

theorem take_slice (memory : Nat → α) (offset : Nat) {count length : Nat}
    (within : count ≤ length) :
    (slice memory offset length).take count = slice memory offset count := by
  simp [slice, ← map_take, take_range, Nat.min_eq_left within]

theorem slice_congr {memory' : Nat → α} {offset length : Nat}
    (same : ∀ address, offset ≤ address → address < offset + length →
      memory address = memory' address) :
    slice memory offset length = slice memory' offset length := by
  apply map_congr_left
  intro index inside
  have below := mem_range.mp inside
  exact same _ (Nat.le_add_right _ _) (Nat.add_lt_add_left below _)

variable {address : Nat}

theorem write_of_outside {offset : Nat} {items : List α}
    (outside : address < offset ∨ offset + items.length ≤ address) :
    write memory offset items address = memory address := by
  unfold write
  split
  next inside =>
    have behind : items.length ≤ address - offset := by omega
    rw [getD_eq_getElem?_getD, List.getElem?_eq_none behind, Option.getD_none]
  next => rfl

theorem slice_write_self (memory : Nat → α) (offset : Nat) (items : List α) :
    slice (write memory offset items) offset items.length = items := by
  apply ext_getElem (length_slice _ _ _)
  intro index _ inside
  simp only [slice]
  rw [getElem_map, getElem_range, write, if_pos (Nat.le_add_right _ _),
    Nat.add_sub_cancel_left, getD_eq_getElem _ _ inside]

/-- Two writes behind each other are one. -/
theorem write_append (memory : Nat → α) (offset : Nat) (front back : List α) :
    write (write memory offset front) (offset + front.length) back =
      write memory offset (front ++ back) := by
  funext address
  simp only [write, getD_eq_getElem?_getD, getElem?_append]
  grind

/-! ## Several writes -/

/-- Write several lists. -/
def writeAll (memory : Nat → α) (writes : List (Nat × List α)) : Nat → α :=
  writes.foldl (fun memory item => write memory item.1 item.2) memory

/-- The address lies in one of the ranges. -/
def Targets (writes : List (Nat × List α)) (address : Nat) : Prop :=
  ∃ item ∈ writes, item.1 ≤ address ∧ address < item.1 + item.2.length

instance (writes : List (Nat × List α)) (address : Nat) : Decidable (Targets writes address) :=
  inferInstanceAs (Decidable (∃ item ∈ writes, _))

/-- Put anything into the ranges. -/
def scramble (memory garbage : Nat → α) (writes : List (Nat × List α)) : Nat → α := fun address =>
  if Targets writes address then garbage address else memory address

theorem writeAll_append (memory : Nat → α) (front back : List (Nat × List α)) :
    writeAll memory (front ++ back) = writeAll (writeAll memory front) back :=
  foldl_append

variable {writes : List (Nat × List α)}

theorem writeAll_of_not_targets (outside : ¬ Targets writes address) :
    writeAll memory writes address = memory address := by
  induction writes generalizing memory with
  | nil => rfl
  | cons item writes ih =>
    have rest : ¬ Targets writes address := by
      rintro ⟨other, member, inside⟩
      exact outside ⟨other, mem_cons_of_mem _ member, inside⟩
    have first : ¬ (item.1 ≤ address ∧ address < item.1 + item.2.length) := fun inside =>
      outside ⟨item, mem_cons_self, inside⟩
    apply Eq.trans (ih rest)
    apply write_of_outside
    omega

/-- Of writes to ranges that do not overlap, each can be read back. -/
theorem slice_writeAll (apart : writes.Pairwise fun left right =>
      left.1 + left.2.length ≤ right.1 ∨ right.1 + right.2.length ≤ left.1) {item : Nat × List α}
    (member : item ∈ writes) : slice (writeAll memory writes) item.1 item.2.length = item.2 := by
  induction writes generalizing memory with
  | nil => cases member
  | cons first writes ih =>
    rcases pairwise_cons.mp apart with ⟨beside, others⟩
    rw [writeAll, foldl_cons]
    rcases mem_cons.mp member with rfl | inside
    · apply Eq.trans _ (slice_write_self memory item.1 item.2)
      apply slice_congr
      intro address low high
      apply writeAll_of_not_targets
      rintro ⟨other, known, from_, to_⟩
      rcases beside other known with before | behind <;> omega
    · exact ih others inside

end VectorChord.Collections
