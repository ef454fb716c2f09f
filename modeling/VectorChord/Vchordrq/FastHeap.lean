import VectorChord.Index.Sequence

/-!
# A heap for insertion

An insertion looks at few of the children of a node.  The heap of its prefetcher sorts
only the largest few items at first, and becomes a binary heap once they are gone.
-/

namespace VectorChord.Vchordrq

open Collections Index Transition List Heap Sorting

variable {ι κ : Type} [LinearOrder κ] {key : ι → κ}

/-- `SortHeap`: the last `t` items are the largest and in order. -/
structure SortHeap (key : ι → κ) where
  inner : List ι
  t : Nat
  positive : 0 < t
  fits : t ≤ inner.length
  sorted : (inner.drop (inner.length - t)).Pairwise fun lower upper => key lower ≤ key upper
  separated : ∀ lower ∈ inner.take (inner.length - t),
    ∀ upper ∈ inner.drop (inner.length - t), key lower ≤ key upper

inductive FastHeap (key : ι → κ) where
  | sorted (heap : SortHeap key)
  | binary (items : List ι)

namespace SortHeap

variable (heap : SortHeap key) {front : List ι} {last : ι}

theorem ne_nil : heap.inner ≠ [] := by
  have positive := heap.positive
  have fits := heap.fits
  intro empty
  rw [empty, length_nil] at fits
  omega

section

variable (split : heap.inner = front ++ [last])

include split

theorem length_sub :
    heap.inner.length - heap.t = front.length - (heap.t - 1) := by
  have positive := heap.positive
  rw [split, length_append, length_singleton]
  omega

theorem drop_split :
    heap.inner.drop (heap.inner.length - heap.t) =
      front.drop (front.length - (heap.t - 1)) ++ [last] := by
  rw [heap.length_sub split, split, drop_append_of_le_length (Nat.sub_le _ _)]

theorem take_split :
    heap.inner.take (heap.inner.length - heap.t) =
      front.take (front.length - (heap.t - 1)) := by
  rw [heap.length_sub split, split, take_append_of_le_length (Nat.sub_le _ _)]

/-- The last item has the largest key. -/
theorem le_last :
    ∀ other ∈ heap.inner, key other ≤ key last := by
  intro other member
  have sorted := heap.sorted
  have separated := heap.separated
  rw [← take_append_drop (heap.inner.length - heap.t) heap.inner, mem_append] at member
  rw [heap.drop_split split] at sorted separated member
  cases member with
  | inl lower => exact separated other lower last (by simp)
  | inr upper =>
    rw [pairwise_append] at sorted
    cases mem_append.mp upper with
    | inl earlier => exact sorted.2.2 other earlier last (by simp)
    | inr same => rw [mem_singleton.mp same]

end

/-- What is left without the last item, if there are sorted items among it. -/
def rest (split : heap.inner = front ++ [last]) (more : heap.t - 1 ≠ 0) : SortHeap key where
  inner := front
  t := heap.t - 1
  positive := Nat.pos_of_ne_zero more
  fits := by
    have fits := heap.fits
    rw [split, length_append, length_singleton] at fits
    omega
  sorted := by
    have sorted := heap.sorted
    rw [heap.drop_split split, pairwise_append] at sorted
    exact sorted.1
  separated := by
    have separated := heap.separated
    rw [heap.take_split split, heap.drop_split split] at separated
    exact fun lower below upper above =>
      separated lower below upper (mem_append_left _ above)

end SortHeap

namespace FastHeap

/-- The heap sorts one in so many items. -/
def share : Nat := 384

section fromVec

variable [Sorting] (key) (vec : List ι) {t : Nat}

/-- The vector with its last `t` items selected and sorted. -/
def arrange (t : Nat) : List ι :=
  let inner := Sorting.selectNth key (vec.length - t) vec
  inner.take (vec.length - t) ++ Sorting.sort key (inner.drop (vec.length - t))

theorem arrange_perm : (arrange key vec t).Perm vec := by
  have selected := selectNth_perm key (vec.length - t) vec
  refine ((sort_perm key _).append_left _).trans ?_
  rw [take_append_drop]
  exact selected

theorem length_take_selectNth :
    ((Sorting.selectNth key (vec.length - t) vec).take (vec.length - t)).length =
      vec.length - t := by
  rw [length_take, (selectNth_perm key _ vec).length_eq]
  exact min_eq_left (Nat.sub_le _ _)

theorem drop_arrange : (arrange key vec t).drop ((arrange key vec t).length - t) =
    Sorting.sort key ((Sorting.selectNth key (vec.length - t) vec).drop (vec.length - t)) := by
  rw [(arrange_perm key vec).length_eq]
  exact drop_left' (length_take_selectNth key vec)

theorem take_arrange : (arrange key vec t).take ((arrange key vec t).length - t) =
    (Sorting.selectNth key (vec.length - t) vec).take (vec.length - t) := by
  rw [(arrange_perm key vec).length_eq]
  exact take_left' (length_take_selectNth key vec)

/-- `FastHeap::from_vec`. -/
def fromVec : FastHeap key :=
  if some : vec.length / share ≠ 0 then
    .sorted
      { inner := arrange key vec (vec.length / share)
        t := vec.length / share
        positive := Nat.pos_of_ne_zero some
        fits := by
          rw [(arrange_perm key vec).length_eq]
          exact Nat.div_le_self _ _
        sorted := by
          rw [drop_arrange]
          exact sort_sorted key _
        separated := by
          rw [drop_arrange, take_arrange]
          intro lower below upper above
          exact selectNth_separates key _ vec lower below upper
            ((sort_perm key _).mem_iff.mp above) }
  else .binary vec

end fromVec

/-- `into_inner`. -/
def intoInner : FastHeap key → List ι
  | .sorted heap => heap.inner
  | .binary items => items

theorem fromVec_perm [Sorting] (vec : List ι) : (fromVec key vec).intoInner.Perm vec := by
  rw [fromVec]
  split
  · exact arrange_perm key vec
  · exact .rfl

variable [Heap]

/-- `FastHeap::peek`. -/
def peek : FastHeap key → Option ι
  | .sorted heap => heap.inner.getLast?
  | .binary items => Heap.peek key items

/-- `FastHeap::pop`. -/
def pop : FastHeap key → Option ι × FastHeap key
  | .sorted heap =>
    let last := heap.inner.getLast heap.ne_nil
    if more : heap.t - 1 ≠ 0 then
      (some last, .sorted (heap.rest (dropLast_append_getLast heap.ne_nil).symm more))
    else (some last, .binary heap.inner.dropLast)
  | .binary items =>
    match Heap.pop key items with
    | none => (none, .binary items)
    | some (item, rest) => (some item, .binary rest)

theorem pop_some {heap heap' : FastHeap key} {item : ι} (popped : heap.pop = (some item, heap')) :
    (item :: heap'.intoInner).Perm heap.intoInner ∧
      ∀ other ∈ heap.intoInner, key other ≤ key item := by
  cases heap with
  | sorted heap =>
    have split := (dropLast_append_getLast heap.ne_nil).symm
    have front : (heap.inner.getLast heap.ne_nil :: heap.inner.dropLast).Perm heap.inner := by
      conv => rhs; rw [split]
      exact (perm_append_singleton _ _).symm
    rw [pop] at popped
    split at popped <;>
    · cases popped
      exact ⟨front, heap.le_last split⟩
  | binary items =>
    rw [pop] at popped
    split at popped
    · cases popped
    · rename_i found
      cases popped
      exact ⟨pop_perm found, le_of_pop found⟩

theorem pop_none {heap heap' : FastHeap key} (popped : heap.pop = (none, heap')) :
    heap.intoInner = [] ∧ heap'.intoInner = [] := by
  cases heap with
  | sorted heap =>
    rw [pop] at popped
    split at popped <;> cases popped
  | binary items =>
    rw [pop] at popped
    split at popped
    · rename_i found
      cases popped
      exact ⟨eq_nil_of_pop found, eq_nil_of_pop found⟩
    · cases popped

theorem peek_eq_pop (heap : FastHeap key) : heap.peek = heap.pop.1 := by
  cases heap with
  | sorted heap =>
    rw [peek, pop, getLast?_eq_getLast_of_ne_nil heap.ne_nil]
    split <;> rfl
  | binary items =>
    rw [peek, pop, Heap.peek]
    cases Heap.pop key items <;> rfl

/-- `impl Sequence for FastHeap`. -/
def sequence (key : ι → κ) : Sequence key where
  State := FastHeap key
  next := pop
  peek := peek
  intoInner := intoInner
  peek_eq := peek_eq_pop
  next_perm popped := (pop_some popped).1
  next_largest popped := (pop_some popped).2
  next_none := pop_none

/-! ## Runs -/

inductive Call where
  | pop
  | peek
  deriving DecidableEq, Repr

def calls : Machine (FastHeap key) Call (Option ι) where
  step heap
    | .pop => (heap.pop.2, heap.pop.1)
    | .peek => (heap, heap.peek)

/-- The items that some calls pop. -/
def popped : FastHeap key → List Call → List ι
  | _, [] => []
  | heap, .pop :: events => heap.pop.1.toList ++ popped heap.pop.2 events
  | heap, .peek :: events => popped heap events

theorem pop_perm (heap : FastHeap key) :
    (heap.pop.1.toList ++ heap.pop.2.intoInner).Perm heap.intoInner := by
  cases found : heap.pop with
  | mk item rest =>
    cases item with
    | none => simp [pop_none found]
    | some item => exact (pop_some found).1

theorem popped_perm (heap : FastHeap key) (events : List Call) :
    (heap.popped events ++ (calls.run heap events).intoInner).Perm heap.intoInner := by
  induction events generalizing heap with
  | nil => exact .rfl
  | cons call events ih =>
    cases call with
    | peek => exact ih heap
    | pop =>
      rw [popped, append_assoc]
      exact ((ih heap.pop.2).append_left _).trans heap.pop_perm

/-- However many items there are, in every run: nothing is lost or repeated, a pop returns a
largest item and fails only on an empty heap, and a peek returns what a pop would.  The sorted
representation always has an item, so the branch without one is not reached. -/
theorem calls_priorityQueue [Sorting] (vec : List ι) (events : List Call) :
    let heap := calls.run (fromVec key vec) events
    ((fromVec key vec).popped events ++ heap.intoInner).Perm vec ∧
    (∀ item rest, heap.pop = (some item, rest) → item ∈ heap.intoInner ∧
      (∀ other ∈ heap.intoInner, key other ≤ key item) ∧
      (item :: rest.intoInner).Perm heap.intoInner) ∧
    (heap.pop.1 = none → heap.intoInner = []) ∧
    heap.peek = heap.pop.1 ∧
    ∀ sorted, heap = .sorted sorted → sorted.inner.getLast? ≠ none := by
  intro heap
  refine ⟨(popped_perm _ events).trans (fromVec_perm vec), ?_, ?_, peek_eq_pop heap, ?_⟩
  · intro item rest found
    obtain ⟨perm, largest⟩ := pop_some found
    exact ⟨perm.mem_iff.mp mem_cons_self, largest, perm⟩
  · intro none
    exact (pop_none (Prod.ext none rfl)).1
  · intro sorted _
    simp [sorted.ne_nil]

end FastHeap

end VectorChord.Vchordrq
