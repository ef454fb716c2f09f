import VectorChord.Collections.Heap

/-!
# The smallest items

A heap of bounded size that gives up its largest item for a smaller one keeps the smallest
of the items it was offered.  In which order they were offered, and which of several equal
items are kept, does not show once they are sorted.
-/

namespace VectorChord.Collections

open List Heap

variable {α : Type} [LinearOrder α]

/-- Of the items that were seen, the heap holds as many of the smallest as it may. -/
structure Smallest (limit : Nat) (best seen : List α) : Prop where
  count : best.length = min limit seen.length
  split : ∃ rest, (best ++ rest).Perm seen ∧ ∀ low ∈ best, ∀ high ∈ rest, low ≤ high

namespace Smallest

variable {limit : Nat} {best seen : List α}

theorem nil : Smallest limit ([] : List α) [] :=
  ⟨by simp, [], .rfl, by simp⟩

section

variable (smallest : Smallest limit best seen)

include smallest

theorem perm {seen' : List α} (same : seen.Perm seen') :
    Smallest limit best seen' := by
  obtain ⟨rest, whole, low⟩ := smallest.split
  refine ⟨?_, rest, whole.trans same, low⟩
  rw [← same.length_eq]
  exact smallest.count

/-- The items that are kept, in order, are the first ones of all. -/
theorem insertionSort_eq :
    best.insertionSort (· ≤ ·) = (seen.insertionSort (· ≤ ·)).take limit := by
  obtain ⟨rest, whole, low⟩ := smallest.split
  have sorted : (best.insertionSort (· ≤ ·) ++ rest.insertionSort (· ≤ ·)).Pairwise (· ≤ ·) := by
    refine pairwise_append.mpr
      ⟨best.pairwise_insertionSort _, rest.pairwise_insertionSort _, ?_⟩
    intro lower inBest upper inRest
    exact low lower ((best.perm_insertionSort _).mem_iff.mp inBest) upper
      ((rest.perm_insertionSort _).mem_iff.mp inRest)
  have parts : (best.insertionSort (· ≤ ·) ++ rest.insertionSort (· ≤ ·)).Perm
      (seen.insertionSort (· ≤ ·)) :=
    (((best.perm_insertionSort _).append (rest.perm_insertionSort _)).trans whole).trans
      (seen.perm_insertionSort _).symm
  have all := parts.eq_of_pairwise' sorted (seen.pairwise_insertionSort _)
  have count := smallest.count
  have total := whole.length_eq
  rw [length_append] at total
  rw [← all, take_append, length_insertionSort]
  rcases le_total limit seen.length with fewer | enough
  · have full : best.length = limit := by omega
    rw [full, Nat.sub_self, take_zero, append_nil, take_of_length_le]
    rw [length_insertionSort, full]
  · have none : rest = [] := eq_nil_of_length_eq_zero (by omega)
    rw [none, insertionSort_nil, take_nil, append_nil, take_of_length_le]
    rw [length_insertionSort]
    omega

/-- A full heap of items that are not larger is left alone. -/
theorem skip {item : α} (full : limit ≤ best.length)
    (larger : ∀ kept ∈ best, kept ≤ item) : Smallest limit best (item :: seen) := by
  obtain ⟨others, whole, low⟩ := smallest.split
  have count := smallest.count
  refine ⟨?_, item :: others, ?_, ?_⟩
  · rw [length_cons]
    omega
  · exact perm_middle.trans (whole.cons item)
  · intro lower inBest upper inRest
    cases inRest with
    | head => exact larger lower inBest
    | tail _ other => exact low lower inBest upper other

end

end Smallest

/-! ## A bounded heap -/

section

variable [Heap] {limit : Nat}

/-- Offer an item to a heap that holds at most `limit` of them. -/
def retain (limit : Nat) (best : List α) (item : α) : List α :=
  if limit = 0 then best
  else if best.length < limit then Heap.push id item best
  else if (Heap.peek id best).any (item < ·) then
    Heap.push id item ((Heap.pop id best).elim [] Prod.snd)
  else best

/-- A heap with room takes the item. -/
theorem Smallest.push {best seen : List α} (smallest : Smallest limit best seen)
    (room : best.length < limit) (item : α) :
    Smallest limit (Heap.push id item best) (item :: seen) := by
  obtain ⟨rest, whole, low⟩ := smallest.split
  have count := smallest.count
  have total := whole.length_eq
  rw [length_append] at total
  have none : rest = [] := eq_nil_of_length_eq_zero (by omega)
  refine ⟨?_, [], ?_, by simp⟩
  · rw [(push_perm id item best).length_eq, length_cons, length_cons]
    omega
  · rw [none, append_nil] at whole
    rw [append_nil]
    exact (push_perm id item best).trans (whole.cons item)

/-- A full heap gives up its largest item for a smaller one. -/
theorem Smallest.replace {best seen rest : List α} {item worst : α}
    (smallest : Smallest limit best seen) (popped : Heap.pop id best = some (worst, rest))
    (full : limit ≤ best.length) (smaller : item < worst) :
    Smallest limit (Heap.push id item rest) (item :: seen) := by
  obtain ⟨others, whole, low⟩ := smallest.split
  have pushed := push_perm id item rest
  have taken := pop_perm popped
  have count := smallest.count
  have length := taken.length_eq
  rw [length_cons] at length
  refine ⟨?_, worst :: others, ?_, ?_⟩
  · rw [pushed.length_eq, length_cons, length_cons]
    omega
  · calc (Heap.push id item rest ++ worst :: others).Perm ((item :: rest) ++ worst :: others) :=
          pushed.append_right _
      List.Perm _ (item :: (worst :: rest ++ others)) := perm_middle.cons item
      List.Perm _ (item :: (best ++ others)) := (taken.append_right others).cons item
      List.Perm _ (item :: seen) := whole.cons item
  · intro lower inBest upper inRest
    have below : lower ≤ worst := by
      cases pushed.mem_iff.mp inBest with
      | head => exact le_of_lt smaller
      | tail _ kept =>
        exact le_of_pop popped lower (taken.mem_iff.mp (mem_cons_of_mem worst kept))
    cases inRest with
    | head => exact below
    | tail _ other =>
      exact le_trans below (low worst (taken.mem_iff.mp mem_cons_self) upper other)

theorem Smallest.retain {best seen : List α} (smallest : Smallest limit best seen) (item : α) :
    Smallest limit (Collections.retain limit best item) (item :: seen) := by
  rw [Collections.retain]
  split
  next none =>
    have empty : best = [] := by
      apply eq_nil_of_length_eq_zero
      rw [smallest.count, none, Nat.zero_min]
    apply smallest.skip
    · rw [none]
      exact Nat.zero_le _
    · simp [empty]
  next =>
    split
    next room => exact smallest.push room item
    next full =>
      have full : limit ≤ best.length := not_lt.mp full
      split
      next smaller =>
        obtain ⟨worst, top, smaller⟩ := Option.any_eq_true _ _ |>.mp smaller
        obtain ⟨⟨_, rest⟩, popped, rfl⟩ := Option.map_eq_some_iff.mp top
        rw [popped]
        exact smallest.replace popped full (of_decide_eq_true smaller)
      next larger =>
        apply smallest.skip full
        intro kept member
        cases top : peek id best with
        | none =>
          rw [eq_nil_of_peek top] at member
          cases member
        | some worst =>
          rw [top] at larger
          have above : worst ≤ item := by simpa using larger
          exact le_trans (le_of_peek top kept member) above

/-- What is left of a sequence of offers. -/
theorem Smallest.foldl_retain {best seen : List α} (smallest : Smallest limit best seen)
    (items : List α) :
    Smallest limit (items.foldl (Collections.retain limit) best) (items ++ seen) := by
  induction items generalizing best seen with
  | nil => exact smallest
  | cons item items ih =>
    apply (ih (smallest.retain item)).perm
    exact perm_middle

end

end VectorChord.Collections
