import VectorChord.Collections.BestFirst
import VectorChord.Transition.Machine

/-!
# Prefetchers over heaps

A prefetcher takes its items from a sequence.  The plain one looks at the next item and
takes it if the client wants it; the others take items out of the sequence ahead of time
and hand them out from a window.  Over a heap, all of them hand out the items in the
order of the heap.
-/

namespace VectorChord.Index

open Collections Transition List Machine

/-- A `Sequence` that hands out an item with the largest key first, as heaps do. -/
structure Sequence {ι κ : Type} [LinearOrder κ] (key : ι → κ) where
  State : Type
  next : State → Option ι × State
  peek : State → Option ι
  intoInner : State → List ι
  peek_eq : ∀ state, peek state = (next state).1
  next_perm : ∀ {state item state'}, next state = (some item, state') →
    (item :: intoInner state').Perm (intoInner state)
  next_largest : ∀ {state item state'}, next state = (some item, state') →
    ∀ other ∈ intoInner state, key other ≤ key item
  next_none : ∀ {state state'}, next state = (none, state') →
    intoInner state = [] ∧ intoInner state' = []

variable {ι κ : Type} [LinearOrder κ] {key : ι → κ} (sequence : Sequence key) {predicate : ι → Bool}

/-- `impl Sequence for BinaryHeap`, and for `DaryHeap`. -/
def Sequence.binaryHeap [Heap] (key : ι → κ) : Sequence key where
  State := List ι
  next items :=
    match Heap.pop key items with
    | none => (none, items)
    | some (item, rest) => (some item, rest)
  peek := Heap.peek key
  intoInner items := items
  peek_eq items := by
    rw [Heap.peek]
    cases Heap.pop key items <;> rfl
  next_perm {items item rest} popped := by
    split at popped
    · cases popped
    · rename_i found
      cases popped
      exact Heap.pop_perm found
  next_largest {items item rest} popped := by
    split at popped
    · cases popped
    · rename_i found
      cases popped
      exact Heap.le_of_pop found
  next_none {items rest} popped := by
    split at popped
    · rename_i found
      cases popped
      have empty := Heap.eq_nil_of_pop found
      exact ⟨empty, empty⟩
    · cases popped

/-! ## The plain prefetcher -/

/-- `PlainPrefetcher::next_if`, without the guards. -/
def Sequence.nextIf (predicate : ι → Bool) (state : sequence.State) :
    Option ι × sequence.State :=
  match sequence.peek state with
  | none => (none, state)
  | some item => if predicate item then sequence.next state else (none, state)

theorem Sequence.nextIf_some {state state' : sequence.State} {item : ι}
    (taken : sequence.nextIf predicate state = (some item, state')) :
    sequence.next state = (some item, state') ∧ predicate item = true := by
  rw [nextIf] at taken
  split at taken
  · cases taken
  · rename_i first found
    split at taken
    · rename_i wanted
      rw [sequence.peek_eq, taken] at found
      cases found
      exact ⟨taken, wanted⟩
    · cases taken

theorem Sequence.nextIf_none {state state' : sequence.State}
    (refusal : sequence.nextIf predicate state = (none, state')) :
    (sequence.intoInner state').Perm (sequence.intoInner state) ∧
      (sequence.intoInner state = [] ∨ ∃ item ∈ sequence.intoInner state,
        predicate item = false ∧ ∀ other ∈ sequence.intoInner state, key other ≤ key item) := by
  rw [nextIf] at refusal
  split at refusal
  · rename_i found
    cases refusal
    rw [sequence.peek_eq] at found
    exact ⟨.rfl, .inl (sequence.next_none (Prod.ext found rfl)).1⟩
  · rename_i first found
    rw [sequence.peek_eq] at found
    have front : sequence.next state = (some first, (sequence.next state).2) := Prod.ext found rfl
    split at refusal
    · rw [refusal] at front
      cases front
    · rename_i unwanted
      cases refusal
      refine ⟨.rfl, .inr ⟨first, ?_, Bool.eq_false_iff.mpr unwanted, ?_⟩⟩
      · exact (sequence.next_perm front).mem_iff.mp mem_cons_self
      · exact sequence.next_largest front

/-- A `PlainPrefetcher`. -/
def Sequence.plain : Source key where
  State := sequence.State
  remaining := sequence.intoInner
  nextIf := sequence.nextIf
  accepted taken := (sequence.nextIf_some taken).2
  taken_perm taken := sequence.next_perm (sequence.nextIf_some taken).1
  taken_largest taken := sequence.next_largest (sequence.nextIf_some taken).1
  refused_perm refusal := (sequence.nextIf_none refusal).1
  refused refusal := (sequence.nextIf_none refusal).2

/-! ## Windows -/

/-- Items that have been taken out of the sequence and not been handed out, in the order
in which they were taken. -/
structure Window where
  window : List ι
  state : sequence.State

namespace Window

def new (state : sequence.State) : Window sequence where
  window := []
  state := state

variable {sequence}

/-- `IntoIterator`: the items of the window and those of the sequence. -/
def items (w : Window sequence) : List ι := w.window ++ sequence.intoInner w.state

/-- `sequence.next()`, and `window.push_back` if there is an item. -/
def pull (w : Window sequence) : Bool × Window sequence :=
  match sequence.next w.state with
  | (none, state) => (false, { w with state := state })
  | (some item, state) => (true, ⟨w.window ++ [item], state⟩)

/-- The loop that pulls items while the window is smaller than `size`. -/
def fill (size : Nat) : Nat → Window sequence → Window sequence
  | 0, w => w
  | fuel + 1, w =>
    if w.window.length < size then
      match w.pull with
      | (true, w) => fill size fuel w
      | (false, w) => w
    else w

/-- `window.pop_front_if`. -/
def popFrontIf (predicate : ι → Bool) (w : Window sequence) : Option ι × Window sequence :=
  match w.window with
  | [] => (none, w)
  | item :: window =>
    if predicate item then (some item, { w with window := window }) else (none, w)

/-- `next_if` of the prefetchers with a window: fill it and look at its front. -/
def nextIf (size : Nat) (predicate : ι → Bool) (w : Window sequence) :
    Option ι × Window sequence :=
  (w.fill size size).popFrontIf predicate

end Window

/-! ## Windows do not show -/

/-- A call of a prefetcher. -/
inductive Sequence.Call (ι : Type) where
  | next
  | nextIf (predicate : ι → Bool)

section

variable (fetch : ι → List Nat)

/-- What a `PlainPrefetcher` takes out of its sequence. -/
def Sequence.take (call : Call ι) (state : sequence.State) : Option ι × sequence.State :=
  match call with
  | .next => sequence.next state
  | .nextIf predicate => sequence.nextIf predicate state

variable {sequence}

/-- What the loop of `fill` calls `prefetch` for: the page ids of each item that it pulls. -/
def Window.prefetches (size : Nat) : Nat → Window sequence → List Nat
  | 0, _ => []
  | fuel + 1, w =>
    if w.window.length < size then
      match w.pull with
      | (true, w) => w.window.getLast?.elim [] fetch ++ w.prefetches size fuel
      | (false, _) => []
    else []

/-- What a `SimplePrefetcher` takes out of its window. -/
def Window.take (call : Sequence.Call ι) (w : Window sequence) : Option ι × Window sequence :=
  match call with
  | .next => w.popFrontIf fun _ => true
  | .nextIf predicate => w.popFrontIf predicate

variable (sequence)

variable {sequence fetch}

/-- Taking some items out of a sequence leads from one state to another. -/
inductive Sequence.Takes : sequence.State → List ι → sequence.State → Prop
  | nil {state} : Takes state [] state
  | cons {state next last item items} (first : sequence.next state = (some item, next))
      (rest : Takes next items last) : Takes state (item :: items) last

theorem Sequence.Takes.snoc {state middle last : sequence.State} {items : List ι} {item : ι}
    (takes : sequence.Takes state items middle)
    (next : sequence.next middle = (some item, last)) :
    sequence.Takes state (items ++ [item]) last := by
  induction takes with
  | nil => exact .cons next .nil
  | cons first _ ih => exact .cons first (ih next)

/-- A sequence without items stays without items. -/
theorem Sequence.next_of_nil {state : sequence.State} (empty : sequence.intoInner state = []) :
    ∃ state', sequence.next state = (none, state') ∧ sequence.intoInner state' = [] := by
  cases step : sequence.next state with
  | mk item state' =>
    cases item with
    | none => exact ⟨state', rfl, (sequence.next_none step).2⟩
    | some item =>
      have perm := sequence.next_perm step
      simp [empty] at perm

/-- The window has the items that the plain prefetcher would return next, and behind them the
sequence is in the same state, or both have come to the end. -/
def Window.Follows (state : sequence.State) (w : Window sequence) : Prop :=
  ∃ middle, sequence.Takes state w.window middle ∧
    (middle = w.state ∨ sequence.intoInner middle = [] ∧ sequence.intoInner w.state = [])

namespace Window

variable {state : sequence.State} {w : Window sequence}

theorem Follows.pull (follows : Follows state w) : Follows state w.pull.2 ∧
    ((∃ item, w.pull.1 = true ∧ w.pull.2.window = w.window ++ [item]) ∨
      w.pull.1 = false ∧ w.pull.2.window = w.window ∧
        sequence.intoInner w.pull.2.state = []) := by
  obtain ⟨middle, takes, same⟩ := follows
  rw [Window.pull]
  split
  · rename_i step
    have ended := sequence.next_none step
    have empty := same.elim (fun same => same ▸ ended.1) And.left
    exact ⟨⟨middle, takes, .inr ⟨empty, ended.2⟩⟩, .inr ⟨rfl, rfl, ended.2⟩⟩
  · rename_i item next step
    have here : middle = w.state := by
      refine same.resolve_right fun ended => ?_
      have perm := sequence.next_perm step
      simp [ended.2] at perm
    subst here
    exact ⟨⟨next, takes.snoc step, .inl rfl⟩, .inl ⟨item, rfl, rfl⟩⟩

/-- The loop only adds items to the window, and prefetches what they ask for. -/
theorem Follows.fill (fetch : ι → List Nat) (size fuel : Nat) (follows : Follows state w) :
    Follows state (w.fill size fuel) ∧ ∃ pulled, (w.fill size fuel).window = w.window ++ pulled ∧
      w.prefetches fetch size fuel = pulled.flatMap fetch := by
  induction fuel generalizing w with
  | zero => exact ⟨follows, [], by simp [fill], rfl⟩
  | succ fuel ih =>
    rw [fill, prefetches]
    split
    · have pulled := follows.pull
      generalize w.pull = result at pulled ⊢
      obtain ⟨more, next⟩ := result
      dsimp only at pulled
      obtain ⟨follows, ⟨item, rfl, window⟩ | ⟨rfl, window, _⟩⟩ := pulled
      · obtain ⟨kept, items, filled, prefetched⟩ := ih follows
        exact ⟨kept, item :: items, by simp [filled, window], by simp [prefetched, window]⟩
      · exact ⟨follows, [], by simp [window], rfl⟩
    · exact ⟨follows, [], by simp, rfl⟩

/-- After the loop the window is empty only if the sequence is. -/
theorem Follows.fill_nil {size fuel : Nat} (positive : 0 < size) (fueled : 0 < fuel)
    (follows : Follows state w) (empty : (w.fill size fuel).window = []) :
    (w.fill size fuel).items = [] := by
  obtain ⟨fuel, rfl⟩ := Nat.exists_eq_succ_of_ne_zero fueled.ne'
  rw [Window.fill] at empty ⊢
  split at empty
  · rename_i short
    rw [if_pos short]
    have pulled := follows.pull
    generalize w.pull = result at pulled empty ⊢
    obtain ⟨more, next⟩ := result
    dsimp only at pulled
    obtain ⟨follows, ⟨item, rfl, window⟩ | ⟨rfl, _, ended⟩⟩ := pulled
    · obtain ⟨_, items, filled, _⟩ := follows.fill (fun _ => []) size fuel
      simp [filled, window] at empty
    · exact append_eq_nil_iff.mpr ⟨empty, ended⟩
  · rename_i full
    rw [empty] at full
    exact absurd positive full

theorem follows_new (state : sequence.State) : Follows state (new sequence state) :=
  ⟨state, .nil, .inl rfl⟩

section

variable (follows : Follows state w)

include follows

/-- Both prefetchers offer the same item. -/
theorem Follows.popFrontIf (ready : w.window = [] → w.items = [])
    (predicate : ι → Bool) :
    (w.popFrontIf predicate).1 = (sequence.nextIf predicate state).1 ∧
      Follows (sequence.nextIf predicate state).2 (w.popFrontIf predicate).2 ∧
      w.window = (w.popFrontIf predicate).1.toList ++ (w.popFrontIf predicate).2.window := by
  obtain ⟨middle, takes, same⟩ := follows
  rw [Window.popFrontIf, Sequence.nextIf, sequence.peek_eq]
  split
  · rename_i front
    rw [front] at takes
    cases takes with
    | nil =>
      have empty := (append_eq_nil_iff.mp (ready front)).2
      have ended := same.elim (fun same => same ▸ empty) And.left
      obtain ⟨_, none, _⟩ := sequence.next_of_nil ended
      rw [none]
      exact ⟨rfl, ⟨state, front ▸ .nil, .inr ⟨ended, empty⟩⟩, by simp [front]⟩
  · rename_i item rest front
    rw [front] at takes
    cases takes with
    | cons first takes =>
      rw [first]
      dsimp only
      by_cases wanted : predicate item
      · rw [if_pos wanted, if_pos wanted]
        exact ⟨rfl, ⟨middle, takes, same⟩, front⟩
      · rw [if_neg wanted, if_neg wanted]
        exact ⟨rfl, ⟨middle, front.symm ▸ .cons first takes, same⟩, rfl⟩

theorem Follows.items_perm :
    w.items.Perm (sequence.intoInner state) := by
  obtain ⟨middle, takes, same⟩ := follows
  have rest : sequence.intoInner w.state = sequence.intoInner middle :=
    same.elim (fun same => same ▸ rfl) fun ended => ended.2.trans ended.1.symm
  rw [items, rest]
  generalize w.window = window at takes
  clear same rest
  induction takes with
  | nil => exact .rfl
  | cons first _ ih => exact (ih.cons _).trans (sequence.next_perm first)

/-- At the end of the sequence, `next` may change its state. -/
theorem Follows.next_of_nil {next : sequence.State}
    (step : sequence.next state = (none, next)) : Follows next w := by
  have ended := sequence.next_none step
  have items := follows.items_perm
  rw [ended.1, perm_nil, Window.items, append_eq_nil_iff] at items
  exact ⟨next, items.1 ▸ .nil, .inr ⟨ended.2, items.2⟩⟩

/-- Filling the window first does not show. -/
theorem Follows.nextIf {size : Nat} (positive : 0 < size) (predicate : ι → Bool) :
    (w.nextIf size predicate).1 = (sequence.nextIf predicate state).1 ∧
      Follows (sequence.nextIf predicate state).2 (w.nextIf size predicate).2 := by
  have filled := (follows.fill (fun _ => []) size size).1
  obtain ⟨same, next, _⟩ :=
    filled.popFrontIf (follows.fill_nil positive positive) predicate
  exact ⟨same, next⟩

theorem Follows.take (ready : w.window = [] → w.items = [])
    (call : Sequence.Call ι) : (w.take call).1 = (sequence.take call state).1 ∧
      Follows (sequence.take call state).2 (w.take call).2 ∧
      w.window = (w.take call).1.toList ++ (w.take call).2.window := by
  cases call with
  | nextIf predicate => exact follows.popFrontIf ready predicate
  | next =>
    have tried := follows.popFrontIf ready fun _ => true
    rw [Sequence.nextIf, sequence.peek_eq] at tried
    rw [Sequence.take]
    cases step : sequence.next state with
    | mk item next =>
      rw [step] at tried
      cases item with
      | none => exact ⟨tried.1, tried.2.1.next_of_nil step, tried.2.2⟩
      | some item => exact tried

end

end Window

namespace Sequence

/-- The items of some answers. -/
def returned (answers : List (Option (ι × List Nat))) : List ι :=
  answers.filterMap (Option.map Prod.fst)

theorem take_perm (state : sequence.State) (call : Call ι) :
    ((sequence.take call state).1.toList ++
      sequence.intoInner (sequence.take call state).2).Perm (sequence.intoInner state) := by
  cases call with
  | next =>
    rw [take]
    cases step : sequence.next state with
    | mk item next =>
      cases item with
      | none => simp [sequence.next_none step]
      | some item => exact sequence.next_perm step
  | nextIf predicate =>
    rw [take]
    cases step : sequence.nextIf predicate state with
    | mk item next =>
      cases item with
      | none => exact (sequence.nextIf_none step).1
      | some item => exact sequence.next_perm (sequence.nextIf_some step).1

end Sequence

end

/-! ## Prefetchers with windows as sources -/

/-- Pull a number of items, as far as there are any. -/
def Window.pullMany {sequence : Sequence key} : Nat → Window sequence → Window sequence
  | 0, w => w
  | count + 1, w => w.pull.2.pullMany count

theorem Window.Follows.pullMany {sequence : Sequence key} {state : sequence.State}
    {w : Window sequence} (follows : Follows state w) (count : Nat) :
    Follows state (w.pullMany count) := by
  induction count generalizing w with
  | zero => exact follows
  | succ count ih => exact ih follows.pull.1

/-- `next_if` of a `StreamPrefetcher`.  While the guards of an item are read, the read stream
asks for page ids and so pulls further items.  How many is up to the stream: the state lists it
for the items to come. -/
def Window.streamNextIf {sequence : Sequence key} (predicate : ι → Bool)
    (state : Window sequence × List Nat) : Option ι × Window sequence × List Nat :=
  match state.1.nextIf 1 predicate with
  | (none, w) => (none, w, state.2)
  | (some item, w) => (some item, w.pullMany (state.2.headD 0), state.2.tail)

theorem Window.Follows.streamNextIf {sequence : Sequence key} {state : sequence.State}
    {s : Window sequence × List Nat} (predicate : ι → Bool) (follows : s.1.Follows state) :
    (Window.streamNextIf predicate s).1 = (sequence.nextIf predicate state).1 ∧
      (Window.streamNextIf predicate s).2.1.Follows (sequence.nextIf predicate state).2 := by
  have next := follows.nextIf one_pos predicate
  rw [Window.streamNextIf]
  generalize s.1.nextIf 1 predicate = result at next ⊢
  obtain ⟨found, w⟩ := result
  cases found with
  | none => exact next
  | some item => exact ⟨next.1, next.2.pullMany _⟩

/-- A `StreamPrefetcher`. -/
def Sequence.stream : Source key :=
  sequence.plain.refined (fun state (s : Window sequence × List Nat) => s.1.Follows state)
    (fun follows => follows.items_perm) Window.Follows.streamNextIf

end VectorChord.Index
