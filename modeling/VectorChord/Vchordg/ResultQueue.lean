import VectorChord.Collections.TopK
import VectorChord.Transition.Machine
import VectorChord.Vchordg.Graph

/-!
# The queue of results

`Results` keeps the `ef` closest items in front and the others behind.  In every run of
pushes and pops the items in front are the closest of all that are there, so the farthest
of them is the one in place `ef`, and the next item to be popped is the closest of all.
Heaps may choose among equally close items as they like, in each call anew.
-/

namespace VectorChord.Vchordg

open Collections Transition List Option

section

variable [HeapPolicy] {α : Type} {key : α → Distance} {item : α}

/-- What is taken out of a heap is least. -/
theorem popMin_le {heap rest : List α} (popped : popMin key heap = some (item, rest)) :
    ∀ other ∈ heap, key item ≤ key other := by
  simp only [popMin, Option.bind_eq_bind, Option.bind_eq_some_iff, Option.pure_def,
    Option.some.injEq, Prod.mk.injEq] at popped
  rcases popped with ⟨least, smallest, ⟨chosen, position⟩, tie, item', found, rfl, rfl⟩
  have kept := mem_filter.mp (mem_of_getElem? tie)
  rw [mk_mem_zipIdx_iff_getElem?, found, some_inj, decide_eq_true_eq] at kept
  intro other member
  rw [kept.1, kept.2]
  exact (min?_eq_some_iff.mp smallest).2 _ (mem_map_of_mem member)

theorem length_popMin {heap rest : List α} (popped : popMin key heap = some (item, rest)) :
    rest.length + 1 = heap.length :=
  (popMin_perm popped).length_eq

theorem le_popMax {heap rest : List α} (popped : popMax key heap = some (item, rest)) :
    ∀ other ∈ heap, key other ≤ key item := by
  intro other member
  exact Int.neg_le_neg_iff.mp (popMin_le popped other member)

end

/-- The greatest of some numbers is the last one in order. -/
theorem max?_eq_getLast? (values : List Distance) :
    values.max? = (values.insertionSort (· ≤ ·)).getLast? := by
  cases last : (values.insertionSort (· ≤ ·)).getLast? with
  | none =>
    have none : values.insertionSort (· ≤ ·) = [] := getLast?_eq_none_iff.mp last
    have empty : values = [] := by
      rw [← length_eq_zero_iff, ← length_insertionSort (· ≤ ·) values, none]
      rfl
    rw [empty]
    rfl
  | some greatest =>
    obtain ⟨front, whole⟩ := getLast?_eq_some_iff.mp last
    have sorted := values.pairwise_insertionSort (· ≤ ·)
    have order := values.perm_insertionSort (· ≤ ·)
    rw [whole] at sorted order
    apply max?_eq_some_iff.mpr
    constructor
    · exact order.mem_iff.mp (mem_append_right _ (mem_singleton_self greatest))
    · intro value member
      rcases mem_append.mp (order.mem_iff.mpr member) with before | same
      · exact (pairwise_append.mp sorted).2.2 value before greatest
          (mem_singleton_self greatest)
      · exact (mem_singleton.mp same).le

namespace Results

variable {α : Type}

/-- `new`. -/
def new (ef : Nat) : Results α := ⟨ef, [], []⟩

/-- The items in front are as many as fit, and no farther than those behind. -/
structure Ordered (results : Results α) : Prop extends results.Settled where
  fits : results.front.length ≤ results.ef
  ahead : ∀ near ∈ results.front, ∀ far ∈ results.back, near.1 ≤ far.1

theorem ordered_new {ef : Nat} (positive : 0 < ef) : (new ef : Results α).Ordered where
  positive := positive
  behind _ := rfl
  fits := Nat.zero_le _
  ahead _ member := by cases member

section

variable [HeapPolicy] {results : Results α} {item : Distance × α}

theorem Ordered.push (ordered : results.Ordered) (item : Distance × α) :
    (results.push item).Ordered := by
  have settled := ordered.toSettled.push item
  rw [Results.push] at settled ⊢
  split
  next room =>
    rw [if_pos room] at settled
    refine ⟨settled, room, ?_⟩
    intro near _ far member
    rw [ordered.behind room] at member
    cases member
  next full =>
    rw [if_neg full] at settled
    cases popped : popMax Prod.fst (item :: results.front) with
    | none => cases eq_nil_of_popMin popped
    | some taken =>
      rcases taken with ⟨worst, front⟩
      rw [popped] at settled
      have order := popMin_perm popped
      have greatest := le_popMax popped
      refine ⟨settled, ?_, ?_⟩
      · exact (Nat.succ.inj (length_popMin popped)).le.trans ordered.fits
      · intro near inFront far inBack
        have before : near ∈ item :: results.front := order.mem_iff.mp (mem_cons_of_mem _ inFront)
        rcases mem_cons.mp inBack with rfl | later
        · exact greatest near before
        · rcases mem_cons.mp (order.mem_iff.mp mem_cons_self) with same | old
          · -- the new item went behind, and those in front are the ones from before
            rw [same] at order
            exact ordered.ahead near (order.cons_inv.mem_iff.mp inFront) far later
          · exact (greatest near before).trans (ordered.ahead worst old far later)

/-- With nothing behind, the least item in front is the least of all. -/
theorem Ordered.popFront (ordered : results.Ordered) (empty : results.back = [])
    {front : List (Distance × α)}
    (taken : Vchordg.popMin Prod.fst results.front = some (item, front)) :
    Ordered { results with front := front } ∧ ∀ other ∈ results.items, item.1 ≤ other.1 := by
  constructor
  · refine ⟨⟨ordered.positive, fun _ => empty⟩, ?_, ?_⟩
    · exact (Nat.lt_of_succ_le ((length_popMin taken).le.trans ordered.fits)).le
    · intro near _ far member
      rw [empty] at member
      cases member
  · intro other member
    rw [items, empty, append_nil] at member
    exact popMin_le taken other member

theorem Ordered.popMin {results' : Results α} (ordered : results.Ordered)
    (popped : results.popMin = some (item, results')) :
    results'.Ordered ∧ ∀ other ∈ results.items, item.1 ≤ other.1 := by
  have settled := (popMin_spec ordered.toSettled popped).2
  rw [Results.popMin] at popped
  split at popped
  next room =>
    obtain ⟨⟨item', front⟩, taken, same⟩ := map_eq_some_iff.mp popped
    cases same
    exact ordered.popFront (ordered.behind room) taken
  next full =>
    split at popped
    next next back nextTaken =>
      obtain ⟨⟨item', front⟩, taken, same⟩ := map_eq_some_iff.mp popped
      cases same
      have order := popMin_perm taken
      have backOrder := popMin_perm nextTaken
      constructor
      · refine ⟨settled, ?_, ?_⟩
        · exact (Nat.succ.inj (length_popMin taken)).le.trans ordered.fits
        · intro near inFront far inBack
          rcases mem_cons.mp (order.mem_iff.mp (mem_cons_of_mem _ inFront)) with
            rfl | old
          · exact popMin_le nextTaken far (backOrder.mem_iff.mp (mem_cons_of_mem _ inBack))
          · exact ordered.ahead near old far
              (backOrder.mem_iff.mp (mem_cons_of_mem _ inBack))
      · intro other member
        have least := popMin_le taken
        rcases mem_append.mp member with inFront | inBack
        · exact least other (mem_cons_of_mem _ inFront)
        · rcases mem_cons.mp (backOrder.mem_iff.mpr inBack) with rfl | later
          · exact least _ mem_cons_self
          · exact (least next mem_cons_self).trans (popMin_le nextTaken other inBack)
    next none =>
      obtain ⟨⟨item', front⟩, taken, same⟩ := map_eq_some_iff.mp popped
      cases same
      exact ordered.popFront (eq_nil_of_popMin none) taken

end

variable {results : Results α}

/-- The distances in front are the smallest of all. -/
theorem Ordered.smallest (ordered : results.Ordered) :
    Smallest results.ef (results.front.map Prod.fst) (results.items.map Prod.fst) := by
  constructor
  · rw [length_map, length_map, items, length_append]
    by_cases room : results.front.length < results.ef
    · rw [ordered.behind room, length_nil, add_zero, min_eq_right room.le]
    · have size := le_antisymm ordered.fits (not_lt.mp room)
      rw [size, min_eq_left (Nat.le_add_right _ _)]
  · refine ⟨results.back.map Prod.fst, ?_, ?_⟩
    · rw [items, map_append]
    · intro low inFront high inBack
      obtain ⟨near, nearIn, rfl⟩ := mem_map.mp inFront
      obtain ⟨far, farIn, rfl⟩ := mem_map.mp inBack
      exact ordered.ahead near nearIn far farIn

/-- The distance in place `ef`, if there are so many. -/
theorem Ordered.peekEfTh_eq (ordered : results.Ordered) :
    results.peekEfTh =
      ((results.items.map Prod.fst).insertionSort (· ≤ ·))[results.ef - 1]? := by
  have front := ordered.smallest.insertionSort_eq
  have count := ordered.smallest.count
  have positive := ordered.positive
  rw [length_map, length_map] at count
  rw [peekEfTh]
  split
  next room =>
    symm
    apply getElem?_eq_none
    rw [length_insertionSort, length_map]
    omega
  next full =>
    rw [max?_eq_getLast?, front, getLast?_eq_getElem?, length_take,
      length_insertionSort, length_map, getElem?_take]
    have enough : min results.ef results.items.length = results.ef := by omega
    rw [enough, if_pos (by omega)]

/-! ## Runs -/

/-- A call of the queue, with the choices that the heaps make in it. -/
inductive Call (α : Type) where
  | push (policy : HeapPolicy) (item : Distance × α)
  | popMin (policy : HeapPolicy)

/-- The queue as a machine; a pop answers with the item, if there is one. -/
def calls : Machine (Results α) (Call α) (Option (Distance × α)) where
  step results
    | .push policy item => (@push policy α results item, none)
    | .popMin policy =>
      match @popMin policy α results with
      | none => (results, none)
      | some (item, results) => (results, some item)

/-- The item that a call pushes. -/
def Call.pushed : Call α → Option (Distance × α)
  | .push _ item => some item
  | .popMin _ => none

section

variable [HeapPolicy]

theorem ef_push (results : Results α) (item : Distance × α) :
    (results.push item).ef = results.ef := by
  rw [push]
  split
  next => rfl
  next =>
    split
    next => rfl
    next => rfl

theorem ef_popMin {results results' : Results α} {item : Distance × α}
    (popped : results.popMin = some (item, results')) : results'.ef = results.ef := by
  rw [popMin] at popped
  split at popped
  next =>
    obtain ⟨_, _, same⟩ := map_eq_some_iff.mp popped
    cases same
    rfl
  next =>
    split at popped <;>
    · obtain ⟨_, _, same⟩ := map_eq_some_iff.mp popped
      cases same
      rfl

end

/-- A call keeps the order, and what it answers and leaves is what was there and what it
pushes. -/
theorem Ordered.step (ordered : results.Ordered) (call : Call α) :
    (calls.step results call).1.Ordered ∧ (calls.step results call).1.ef = results.ef ∧
      ((calls.step results call).2.toList ++ (calls.step results call).1.items).Perm
        (call.pushed.toList ++ results.items) := by
  cases call with
  | push policy item => exact ⟨ordered.push item, ef_push results item, push_perm results item⟩
  | popMin policy =>
    cases popped : results.popMin with
    | none =>
      have stays : calls.step results (.popMin policy) = (results, none) := by
        simp only [calls, popped]
      rw [stays]
      exact ⟨ordered, rfl, .rfl⟩
    | some taken =>
      rcases taken with ⟨item, results'⟩
      have moves : calls.step results (.popMin policy) = (results', some item) := by
        simp only [calls, popped]
      rw [moves]
      exact ⟨(ordered.popMin popped).1, ef_popMin popped, (popMin_spec ordered.toSettled popped).1⟩

/-- What has been answered and what is left is what was there and what was pushed. -/
theorem Ordered.run (ordered : results.Ordered) (events : List (Call α)) :
    (calls.run results events).Ordered ∧ (calls.run results events).ef = results.ef ∧
      ((calls.answers results events).reduceOption ++ (calls.run results events).items).Perm
        (events.filterMap Call.pushed ++ results.items) := by
  induction events generalizing results with
  | nil => exact ⟨ordered, rfl, .rfl⟩
  | cons call events ih =>
    obtain ⟨next, same, moved⟩ := ordered.step call
    obtain ⟨last, same', whole⟩ := ih next
    refine ⟨last, same'.trans same, ?_⟩
    have first : (calls.answers results (call :: events)).reduceOption =
        (calls.step results call).2.toList ++
          (calls.answers (calls.step results call).1 events).reduceOption := by
      rw [Machine.answers_cons]
      cases (calls.step results call).2 <;> rfl
    have pushed : (call :: events).filterMap Call.pushed =
        call.pushed.toList ++ events.filterMap Call.pushed := by
      rw [filterMap_cons]
      cases call.pushed <;> rfl
    rw [Machine.run_cons, first, pushed, append_assoc]
    calc
      _ ~ (calls.step results call).2.toList ++ (events.filterMap Call.pushed ++
            (calls.step results call).1.items) := whole.append_left _
      _ ~ events.filterMap Call.pushed ++ ((calls.step results call).2.toList ++
            (calls.step results call).1.items) := perm_append_comm_assoc _ _ _
      _ ~ events.filterMap Call.pushed ++ (call.pushed.toList ++ results.items) :=
          moved.append_left _
      _ ~ _ := by
          rw [append_assoc]
          exact perm_append_comm_assoc _ _ _

/-- In every run from an empty queue, nothing is lost or duplicated: what was popped and what
is in the queue is what was pushed.  The next item to be popped is the closest one, there is
one unless the queue is empty, and the `ef`-th distance is that of all items in order. -/
theorem queue_correct {ef : Nat} (positive : 0 < ef) (events : List (Call α)) :
    let reached : Results α := calls.run (new ef) events
    ((calls.answers (new ef) events).reduceOption ++ reached.items).Perm
        (events.filterMap Call.pushed) ∧
      reached.peekEfTh = ((reached.items.map Prod.fst).insertionSort (· ≤ ·))[ef - 1]? ∧
      ∀ _ : HeapPolicy, (reached.popMin = none ↔ reached.items = []) ∧
        ∀ item rest, reached.popMin = some (item, rest) →
          (item :: rest.items).Perm reached.items ∧ ∀ other ∈ reached.items, item.1 ≤ other.1 := by
  intro reached
  obtain ⟨ordered, same, whole⟩ := (ordered_new positive : (new ef : Results α).Ordered).run events
  refine ⟨?_, ?_, ?_⟩
  · have nothing : (new ef : Results α).items = [] := rfl
    rw [nothing, append_nil] at whole
    exact whole
  · have nth := ordered.peekEfTh_eq
    rw [same] at nth
    exact nth
  · intro _
    constructor
    · constructor
      · exact items_eq_nil_of_popMin ordered.toSettled
      · intro empty
        cases popped : reached.popMin with
        | none => rfl
        | some taken =>
          have order := (popMin_spec ordered.toSettled popped).1
          rw [empty] at order
          cases order.eq_nil
    · intro item rest popped
      exact ⟨(popMin_spec ordered.toSettled popped).1, (ordered.popMin popped).2⟩

/-- Two places in front, and items that are equally far. -/
def tiedCalls : List (Call String) :=
  [.push ⟨fun _ => 0⟩ (4, "a"), .push ⟨fun _ => 0⟩ (4, "b"), .push ⟨fun _ => 1⟩ (4, "c"),
    .popMin ⟨fun _ => 2⟩, .push ⟨fun _ => 0⟩ (3, "d")]

theorem queue_correct_tiedCalls :
    let reached : Results String := calls.run (new 2) tiedCalls
    0 < 2 ∧ reached.peekEfTh = some 4 ∧
      reached.peekEfTh = ((reached.items.map Prod.fst).insertionSort (· ≤ ·))[1]? :=
  ⟨by decide, by decide, (queue_correct (by decide) tiedCalls).2.1⟩

end Results

end VectorChord.Vchordg
