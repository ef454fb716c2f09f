import VectorChord.Codec.Layout

/-!
# Slotted pages

The page interface of the `index` crate on a PostgreSQL block: a fixed special
area, an array of line pointers, and the tuples they point to.  A tuple is stored
as a value together with its serialized size; a line pointer without a tuple is a
freed slot.  Slot numbers count from one.

How PostgreSQL manages the room of a page is not part of the crate.  It is a class
with the laws that the index relies on, of which slotted pages are an instance.
-/

namespace VectorChord.Index

open List

export Codec (align8)

/-- Length in bytes of the serialized form of a tuple, which is never empty and filled up
to a multiple of eight. -/
class TupleSize (α : Type) where
  size : α → Nat
  positive (tuple : α) : 0 < size tuple
  aligned (tuple : α) : align8 (size tuple) = size tuple

/-- A page: the special area and the line pointers. -/
structure Page (ω α : Type) where
  special : ω
  slots : List (Option α)
  deriving DecidableEq, Repr

namespace Page

variable {ω α : Type}

/-- A page right after initialization. -/
def clear (special : ω) : Page ω α := ⟨special, []⟩

def len (page : Page ω α) : Nat := page.slots.length

/-- Content of slot `i`; a freed slot and a slot beyond the end have none. -/
def get (page : Page ω α) (i : Nat) : Option α :=
  match i with
  | 0 => none
  | i + 1 => page.slots[i]?.join

/-- Overwrite the tuple in slot `i` in place. -/
def set (page : Page ω α) (i : Nat) (tuple : α) : Page ω α :=
  { page with slots := page.slots.set (i - 1) (some tuple) }

/-- Tuples in slot order. -/
def tuples (page : Page ω α) : List α := page.slots.filterMap id

/-- No slot has been freed. -/
def Dense (page : Page ω α) : Prop := page.slots = page.tuples.map some

/-! ## Slots -/

variable {page : Page ω α}

@[simp] theorem tuples_clear (special : ω) : (clear special : Page ω α).tuples = [] := rfl

@[simp] theorem special_clear (special : ω) :
    (clear special : Page ω α).special = special := rfl

theorem dense_clear (special : ω) : (clear special : Page ω α).Dense := rfl

@[simp] theorem tuples_mk (special : ω) (content : List α) :
    (⟨special, content.map some⟩ : Page ω α).tuples = content := by
  simp [tuples]

theorem dense_mk (special : ω) (content : List α) :
    (⟨special, content.map some⟩ : Page ω α).Dense := by
  rw [Dense, tuples_mk]

/-- On a dense page the slots count the tuples from one. -/
theorem Dense.get_succ (dense : page.Dense) (i : Nat) : page.get (i + 1) = page.tuples[i]? := by
  have slots : page.slots = page.tuples.map some := dense
  simp only [get, slots, getElem?_map]
  cases page.tuples[i]? <;> rfl

theorem get_set_self {i : Nat} {old tuple : α} (found : page.get i = some old) :
    (page.set i tuple).get i = some tuple := by
  cases i with
  | zero => cases found
  | succ i =>
    have inside : i < page.slots.length := by
      by_contra outside
      simp [get, getElem?_eq_none (Nat.le_of_not_lt outside)] at found
    simp [get, set, inside]

end Page

/-! ## Room -/

/-- Free space of a clear page: `BLCKSZ` without the page header, the special area of two
`u32` and a line pointer. -/
def clearSpace : Nat := 8192 - 24 - 8 - 4

/-- The room of the pages of a relation.  A page with freed slots may reuse one of them for
the next tuple or add a new one. -/
class PageSpace (α : Type) [TupleSize α] where
  /-- `PageGetFreeSpace`: room for a tuple that also needs a line pointer. -/
  freespace {ω : Type} : Page ω α → Nat
  /-- `PageAddItemExtended`: add a tuple, all or nothing, and return its slot. -/
  alloc {ω : Type} : Page ω α → α → Option (Page ω α × Nat)
  freespace_clear {ω : Type} (special : ω) : freespace (Page.clear special) = clearSpace
  /-- A new line pointer takes four bytes. -/
  freespace_append {ω : Type} (page : Page ω α) (tuple : α) :
    freespace ⟨page.special, page.slots ++ [some tuple]⟩ =
      freespace page - (4 + align8 (TupleSize.size tuple))
  alloc_eq_some {ω : Type} {page page' : Page ω α} {tuple : α} {i : Nat} :
    alloc page tuple = some (page', i) →
      page'.special = page.special ∧ 0 < i ∧ page.get i = none ∧
        page'.get i = some tuple ∧ ∀ k, k ≠ i → page'.get k = page.get k
  alloc_of_freespace {ω : Type} {page : Page ω α} {tuple : α} :
    align8 (TupleSize.size tuple) ≤ freespace page → (alloc page tuple).isSome
  /-- On a dense page a tuple gets a new slot at the end, if there is room for it. -/
  alloc_dense {ω : Type} {page : Page ω α} (tuple : α) : page.Dense → alloc page tuple =
    if align8 (TupleSize.size tuple) ≤ freespace page then
      some (⟨page.special, (page.tuples ++ [tuple]).map some⟩, page.len + 1)
    else none

namespace Page

variable {ω α : Type} [TupleSize α] [PageSpace α] {page : Page ω α} {tuple : α}

export PageSpace (freespace alloc)

/-- The tuple fits on a page without tuples. -/
def Fits (ω : Type) (tuple : α) : Prop :=
  ∀ special : ω, TupleSize.size tuple ≤ (clear special : Page ω α).freespace ∧
    ((clear special : Page ω α).alloc tuple).isSome

/-- A page with enough free space takes the tuple. -/
theorem alloc_of_size (room : TupleSize.size tuple ≤ page.freespace) :
    (page.alloc tuple).isSome := by
  apply PageSpace.alloc_of_freespace
  rw [TupleSize.aligned]
  exact room

theorem fits_of_size (small : TupleSize.size tuple ≤ clearSpace) : Fits ω tuple := by
  intro special
  have room : TupleSize.size tuple ≤ (clear special : Page ω α).freespace := by
    rw [PageSpace.freespace_clear]
    exact small
  exact ⟨room, alloc_of_size room⟩

/-- No page has more room than a clear one. -/
theorem Dense.freespace_le (dense : page.Dense) : page.freespace ≤ clearSpace := by
  obtain ⟨special, slots⟩ := page
  have content : slots = (⟨special, slots⟩ : Page ω α).tuples.map some := dense
  generalize (⟨special, slots⟩ : Page ω α).tuples = stored at content
  subst content
  induction stored using reverseRecOn with
  | nil => exact (PageSpace.freespace_clear special).le
  | append_singleton stored last ih =>
    have smaller := PageSpace.freespace_append ⟨special, stored.map some⟩ last
    rw [map_append, map_singleton]
    exact smaller.le.trans ((Nat.sub_le _ _).trans (ih (dense_mk special stored)))

end Page

/-! ## Slotted pages -/

namespace Slotted

/-- Bytes of a block that are left for line pointers and tuples. -/
def capacity : Nat := 8192 - 24 - 8

variable {ω α : Type} [TupleSize α] {page page' : Page ω α} {tuple : α} {i : Nat}

/-- Bytes taken by one line pointer and its tuple. -/
def cost : Option α → Nat
  | none => 4
  | some tuple => 4 + align8 (TupleSize.size tuple)

def used (page : Page ω α) : Nat := (page.slots.map cost).sum

def freespace (page : Page ω α) : Nat := capacity - used page - 4

/-- Add a tuple.  The line pointer that is offered is used if it is free, which then costs
nothing. -/
def alloc (pick : List (Option α) → Nat) (page : Page ω α) (tuple : α) :
    Option (Page ω α × Nat) :=
  match page.slots[pick page.slots]? with
  | some none =>
    if used page + align8 (TupleSize.size tuple) ≤ capacity then
      some ({ page with slots := page.slots.set (pick page.slots) (some tuple) },
        pick page.slots + 1)
    else none
  | _ =>
    if used page + 4 + align8 (TupleSize.size tuple) ≤ capacity then
      some ({ page with slots := page.slots ++ [some tuple] }, page.slots.length + 1)
    else none

theorem freespace_append (page : Page ω α) (tuple : α) :
    freespace ⟨page.special, page.slots ++ [some tuple]⟩ =
      freespace page - (4 + align8 (TupleSize.size tuple)) := by
  simp only [freespace, used, map_append, sum_append, map_singleton, sum_singleton, cost]
  omega

variable {pick : List (Option α) → Nat}

theorem alloc_eq_some (allocated : alloc pick page tuple = some (page', i)) :
    page'.special = page.special ∧ 0 < i ∧ page.get i = none ∧
      page'.get i = some tuple ∧ ∀ k, k ≠ i → page'.get k = page.get k := by
  unfold alloc at allocated
  split at allocated
  next freed =>
    split at allocated
    next =>
      cases allocated
      have inside := (List.getElem?_eq_some_iff.mp freed).1
      refine ⟨rfl, Nat.succ_pos _, by simp [Page.get, freed], by simp [Page.get, inside], ?_⟩
      intro k different
      cases k with
      | zero => rfl
      | succ k =>
        have apart : pick page.slots ≠ k := by omega
        simp [Page.get, getElem?_set_ne apart]
    next => cases allocated
  next =>
    split at allocated
    next =>
      cases allocated
      refine ⟨rfl, Nat.succ_pos _, by simp [Page.get], by simp [Page.get], ?_⟩
      intro k different
      cases k with
      | zero => rfl
      | succ k =>
        by_cases inside : k < page.slots.length
        · simp [Page.get, getElem?_append_left inside]
        · have outside : (page.slots ++ [some tuple]).length ≤ k := by
            rw [length_append, length_singleton]
            omega
          simp [Page.get, getElem?_eq_none outside, getElem?_eq_none (Nat.le_of_not_lt inside)]
    next => cases allocated

theorem size_pos (tuple : α) : 0 < align8 (TupleSize.size tuple) := by
  rw [TupleSize.aligned]
  exact TupleSize.positive tuple

theorem alloc_of_freespace (room : align8 (TupleSize.size tuple) ≤ freespace page) :
    (alloc pick page tuple).isSome := by
  have positive := size_pos tuple
  rw [freespace] at room
  rw [alloc]
  split
  · rw [if_pos (by omega)]
    rfl
  · rw [if_pos (by omega)]
    rfl

theorem alloc_dense (tuple : α) (dense : page.Dense) : alloc pick page tuple =
    if align8 (TupleSize.size tuple) ≤ freespace page then
      some (⟨page.special, (page.tuples ++ [tuple]).map some⟩, page.len + 1)
    else none := by
  have slots : page.slots = page.tuples.map some := dense
  have positive := size_pos tuple
  have room : used page + 4 + align8 (TupleSize.size tuple) ≤ capacity ↔
      align8 (TupleSize.size tuple) ≤ freespace page := by
    rw [freespace]
    omega
  unfold alloc
  split
  next freed =>
    have member := mem_of_getElem? freed
    rw [slots] at member
    simp at member
  next => simp [room, slots, Page.len]

/-- Pages that offer the freed line pointer that `pick` chooses. -/
@[reducible] def pageSpace (pick : List (Option α) → Nat) : PageSpace α where
  freespace := freespace
  alloc := alloc pick
  freespace_clear _ := rfl
  freespace_append := freespace_append
  alloc_eq_some := alloc_eq_some
  alloc_of_freespace := alloc_of_freespace
  alloc_dense := alloc_dense

/-- The first freed line pointer. -/
@[reducible] def firstFree : PageSpace α := pageSpace fun slots => slots.findIdx Option.isNone

end Slotted

end VectorChord.Index
