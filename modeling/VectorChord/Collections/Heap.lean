import Mathlib

/-!
# Priority queues

A binary heap hands out an item with the largest key.  Which of several such items comes
first depends on how the heap is laid out in memory, so nothing is assumed about it: a
heap is a list in some order, and its operations may choose the order.  The same goes for
the unstable sorts of a slice.
-/

namespace VectorChord.Collections

open List Option

/-- A `BinaryHeap`, as the list of its items. -/
class Heap where
  push : {α κ : Type} → [LinearOrder κ] → (α → κ) → α → List α → List α
  pop : {α κ : Type} → [LinearOrder κ] → (α → κ) → List α → Option (α × List α)
  push_perm : ∀ {α κ : Type} [LinearOrder κ] (key : α → κ) (item : α) (items : List α),
    (push key item items).Perm (item :: items)
  eq_nil_of_pop : ∀ {α κ : Type} [LinearOrder κ] {key : α → κ} {items : List α},
    pop key items = none → items = []
  pop_perm : ∀ {α κ : Type} [LinearOrder κ] {key : α → κ} {items rest : List α} {item : α},
    pop key items = some (item, rest) → (item :: rest).Perm items
  le_of_pop : ∀ {α κ : Type} [LinearOrder κ] {key : α → κ} {items rest : List α} {item : α},
    pop key items = some (item, rest) → ∀ other ∈ items, key other ≤ key item

namespace Heap

variable {α κ : Type} [LinearOrder κ]

/-! ## A heap that selects -/

/-- Take the last of the items with the largest key. -/
def popLargest (key : α → κ) : List α → Option (α × List α)
  | [] => none
  | item :: items =>
    match popLargest key items with
    | none => some (item, [])
    | some (best, rest) =>
      if key best < key item then some (item, items) else some (best, item :: rest)

variable {key : α → κ} {items : List α} {item : α}

theorem eq_nil_of_popLargest (popped : popLargest key items = none) : items = [] := by
  cases items with
  | nil => rfl
  | cons item items =>
    rw [popLargest] at popped
    split at popped
    · cases popped
    · split at popped <;> cases popped

theorem popLargest_spec {rest : List α} (popped : popLargest key items = some (item, rest)) :
    (item :: rest).Perm items ∧ ∀ other ∈ items, key other ≤ key item := by
  induction items generalizing item rest with
  | nil => cases popped
  | cons first items ih =>
    rw [popLargest] at popped
    split at popped
    · rename_i last
      cases popped
      cases eq_nil_of_popLargest last
      simp
    · rename_i best others found
      obtain ⟨perm, largest⟩ := ih found
      split at popped
      · rename_i smaller
        cases popped
        refine ⟨.rfl, ?_⟩
        intro other member
        cases member with
        | head => exact le_rfl
        | tail _ member => exact le_trans (largest other member) (le_of_lt smaller)
      · rename_i larger
        cases popped
        refine ⟨(List.Perm.swap first item others).trans (perm.cons first), ?_⟩
        intro other member
        cases member with
        | head => exact not_lt.mp larger
        | tail _ member => exact largest other member

/-- The heap that keeps its items in the order of insertion. -/
@[reducible] def selection : Heap where
  push _ item items := item :: items
  pop := popLargest
  push_perm _ _ _ := .rfl
  eq_nil_of_pop := eq_nil_of_popLargest
  pop_perm popped := (popLargest_spec popped).1
  le_of_pop popped := (popLargest_spec popped).2

variable [Heap]

/-- `BinaryHeap::peek`. -/
def peek (key : α → κ) (items : List α) : Option α := (pop key items).map Prod.fst

theorem eq_nil_of_peek (top : peek key items = none) : items = [] :=
  eq_nil_of_pop (map_eq_none_iff.mp top)

theorem le_of_peek (top : peek key items = some item) : ∀ other ∈ items, key other ≤ key item := by
  obtain ⟨⟨_, rest⟩, popped, rfl⟩ := map_eq_some_iff.mp top
  exact le_of_pop popped

theorem mem_of_peek (top : peek key items = some item) : item ∈ items := by
  obtain ⟨⟨_, rest⟩, popped, rfl⟩ := map_eq_some_iff.mp top
  exact (pop_perm popped).mem_iff.mp mem_cons_self

/-- Pop some items. -/
def drainUpTo (key : α → κ) : (count : Nat) → List α → List α
  | 0, _ => []
  | count + 1, items =>
    match pop key items with
    | none => []
    | some (item, rest) => item :: drainUpTo key count rest

/-- Pop until nothing is left. -/
def drain (key : α → κ) (items : List α) : List α := drainUpTo key items.length items

theorem drainUpTo_perm (key : α → κ) {count : Nat} (enough : items.length ≤ count) :
    (drainUpTo key count items).Perm items := by
  induction count generalizing items with
  | zero =>
    rw [eq_nil_of_length_eq_zero (Nat.le_zero.mp enough)]
    exact .rfl
  | succ count ih =>
    rw [drainUpTo]
    split
    next popped =>
      rw [eq_nil_of_pop popped]
    next item rest popped =>
      have taken := pop_perm popped
      have length := taken.length_eq
      rw [length_cons] at length
      exact ((ih (by omega)).cons item).trans taken

theorem drain_perm (key : α → κ) (items : List α) : (drain key items).Perm items :=
  drainUpTo_perm key le_rfl

/-- What is popped comes largest first, and nothing larger is left behind. -/
theorem drainUpTo_spec (key : α → κ) (count : Nat) (items : List α) :
    ∃ rest, (drainUpTo key count items ++ rest).Perm items ∧
      (drainUpTo key count items).length = min count items.length ∧
      (drainUpTo key count items).Pairwise (fun first second => key second ≤ key first) ∧
      ∀ taken ∈ drainUpTo key count items, ∀ other ∈ rest, key other ≤ key taken := by
  induction count generalizing items with
  | zero => exact ⟨items, .rfl, by simp [drainUpTo], .nil, by simp [drainUpTo]⟩
  | succ count ih =>
    rw [drainUpTo]
    split
    next popped =>
      cases eq_nil_of_pop popped
      exact ⟨[], .rfl, by simp, .nil, by simp⟩
    next item left popped =>
      have perm := pop_perm popped
      have largest : ∀ other ∈ left, key other ≤ key item := fun other member =>
        le_of_pop popped other (perm.subset (mem_cons_of_mem item member))
      obtain ⟨rest, whole, length, sorted, above⟩ := ih left
      refine ⟨rest, (whole.cons item).trans perm, ?_, ?_, ?_⟩
      · rw [length_cons, length, ← perm.length_eq, length_cons, Nat.succ_min_succ]
      · refine pairwise_cons.mpr ⟨?_, sorted⟩
        intro other member
        exact largest other (whole.subset (mem_append_left rest member))
      · intro taken member other inRest
        cases member with
        | head => exact largest other (whole.subset (mem_append_right _ inRest))
        | tail _ member => exact above taken member other inRest

end Heap

/-! ## Sorting -/

/-- The methods of a slice that arrange its items by their keys. -/
class Sorting where
  /-- `select_nth_unstable_by_key`: the item at the index is where it would be if the
  slice were sorted, and the others are on its sides. -/
  selectNth : {α κ : Type} → [LinearOrder κ] → (α → κ) → Nat → List α → List α
  /-- `sort_unstable_by_key`. -/
  sort : {α κ : Type} → [LinearOrder κ] → (α → κ) → List α → List α
  selectNth_perm : ∀ {α κ : Type} [LinearOrder κ] (key : α → κ) (index : Nat) (items : List α),
    (selectNth key index items).Perm items
  selectNth_separates : ∀ {α κ : Type} [LinearOrder κ] (key : α → κ) (index : Nat)
    (items : List α), ∀ lower ∈ (selectNth key index items).take index,
      ∀ upper ∈ (selectNth key index items).drop index, key lower ≤ key upper
  sort_perm : ∀ {α κ : Type} [LinearOrder κ] (key : α → κ) (items : List α),
    (sort key items).Perm items
  sort_sorted : ∀ {α κ : Type} [LinearOrder κ] (key : α → κ) (items : List α),
    (sort key items).Pairwise fun lower upper => key lower ≤ key upper

namespace Sorting

variable {α κ : Type} [LinearOrder κ]

/-- Order by a key. -/
def below (key : α → κ) (lower upper : α) : Prop := key lower ≤ key upper

instance (key : α → κ) : DecidableRel (below key) :=
  fun lower upper => inferInstanceAs (Decidable (key lower ≤ key upper))

instance (key : α → κ) : Std.Total (below key) := ⟨fun _ _ => le_total _ _⟩

instance (key : α → κ) : IsTrans α (below key) := ⟨fun _ _ _ first second => le_trans first second⟩

/-- Sort by insertion, also to select. -/
@[reducible] def insertion : Sorting where
  selectNth key _ items := items.insertionSort (below key)
  sort key items := items.insertionSort (below key)
  selectNth_perm key _ items := items.perm_insertionSort (below key)
  selectNth_separates key index items := by
    have sorted := items.pairwise_insertionSort (below key)
    rw [← take_append_drop index (items.insertionSort (below key)), pairwise_append] at sorted
    exact sorted.2.2
  sort_perm key items := items.perm_insertionSort (below key)
  sort_sorted key items := items.pairwise_insertionSort (below key)

end Sorting

end VectorChord.Collections
