import VectorChord.Maxsim.Distance
import VectorChord.Vchordrq.FastHeap
import VectorChord.Vchordrq.Tape

/-!
# Lazy reranking

A search knows a lower bound of the distance of each candidate, and reads vectors only as
long as a candidate may be closer than all that have been read.  The reranker does so for
the candidates of a search, and the searches and `insert` for the children of the cells
of a level.

Heaps hand out their largest items, so distances enter them reversed.
-/

namespace VectorChord.Vchordrq

open Collections Index List BestFirst
open Maxsim (Distance)

/-- `PrefetcherHeapFamily` and the constructors of prefetchers: what makes a prefetcher
of a vector of items. -/
structure PrefetcherFamily {ι : Type} (rank : ι → Distanceᵒᵈ) where
  source : Source rank
  prefetch : List ι → source.State
  prefetch_perm : ∀ items, (source.remaining (prefetch items)).Perm items

namespace PrefetcherFamily

variable {ι : Type} {rank : ι → Distanceᵒᵈ} [Heap]

/-- A `PlainPrefetcher` over a `BinaryHeap`. -/
def plain : PrefetcherFamily rank where
  source := (Sequence.binaryHeap rank).plain
  prefetch items := items
  prefetch_perm _ := .rfl

/-- A `PlainPrefetcher` over a `FastHeap`. -/
def plainForInsertion [Sorting] : PrefetcherFamily rank where
  source := (FastHeap.sequence rank).plain
  prefetch items := FastHeap.fromVec rank items
  prefetch_perm := FastHeap.fromVec_perm

/-- A `StreamPrefetcher` over a `BinaryHeap`, and how far its stream looks ahead. -/
def stream (ahead : List Nat) : PrefetcherFamily rank where
  source := (Sequence.binaryHeap rank).stream
  prefetch items :=
    ⟨(Window.new (Sequence.binaryHeap rank) items, ahead), items, Window.follows_new _⟩
  prefetch_perm _ := .rfl

end PrefetcherFamily

/-! ## Lazy iterators -/

section Iterators

variable {ι β : Type} {rank : ι → Distanceᵒᵈ}

/-- The key of a value in a cache, `Reverse(distance)`. -/
def reversed (value : Distance × β) : Distanceᵒᵈ × β := (OrderDual.toDual value.1, value.2)

def unreversed (value : Distanceᵒᵈ × β) : Distance × β := (OrderDual.ofDual value.1, value.2)

/-- A lazy iterator that was asked for some values: the items that it evaluated, the
values that it yielded, and what it has left of both. -/
structure Iteration (ι β : Type) where
  evaluated : List ι
  yielded : List (Distance × β)
  unevaluated : List ι
  unyielded : List (Distance × β)

/-- What is expected of a lazy iterator over items with lower bounds, after each number
of values that it may be asked for. -/
structure LazilyExact (items : List ι) (lowerbound : ι → Distance)
    (evaluate : ι → Option (Distance × β)) (after : Nat → Iteration ι β) : Prop where
  /-- It yields as many values as it is asked for, or it is at its end. -/
  yields : ∀ count, (after count).yielded.length = count ∨
    (after count).unevaluated = [] ∧ (after count).unyielded = []
  /-- At its end it has yielded the value of every item that has one. -/
  complete : ∀ count, items.length < count →
    (after count).yielded.Perm (items.filterMap evaluate) ∧
      (after count).unevaluated = [] ∧ (after count).unyielded = []
  ordered : (∀ item ∈ items, ∀ value, evaluate item = some value →
      lowerbound item ≤ value.1) →
    ∀ count, ((after count).yielded.map Prod.fst).Pairwise (· ≤ ·)
  /-- What it has left are the items that it did not evaluate, -/
  items : ∀ count, ((after count).evaluated ++ (after count).unevaluated).Perm items
  /-- and the values of those that it did and that it did not yield. -/
  values : ∀ count, ((after count).yielded ++ (after count).unyielded).Perm
    ((after count).evaluated.filterMap evaluate)

variable [Heap] (family : PrefetcherFamily rank) (evaluate : ι → Option (Distance × β))
  (items : List ι)

/-- The iterator before its first value. -/
def start : BestFirst.State family.source β := ⟨family.prefetch items, []⟩

/-- The value of an item as it is cached. -/
def cached (item : ι) : Option (Distanceᵒᵈ × β) := (evaluate item).map reversed

/-- Ask for at most `count` values. -/
def iterate (count : Nat) : Iteration ι β :=
  let progress := BestFirst.take (cached evaluate) count (start family items)
  { evaluated := progress.evaluated
    yielded := progress.yielded.map unreversed
    unevaluated := family.source.remaining progress.state.pending
    unyielded := progress.state.cache.map unreversed }

omit [Heap] in
theorem map_filterMap_cached :
    (items.filterMap (cached evaluate)).map unreversed = items.filterMap evaluate := by
  rw [map_filterMap]
  apply filterMap_congr
  intro item _
  rw [cached, Option.map_map]
  cases evaluate item <;> rfl

/-- Nothing is lost, whatever prefetcher hands out the items. -/
theorem iterate_values (count : Nat) :
    ((iterate family evaluate items count).yielded ++
      (iterate family evaluate items count).unyielded).Perm
        ((iterate family evaluate items count).evaluated.filterMap evaluate) := by
  have values := (take_accounts (cached evaluate) count (start family items)).values
  have mapped := values.map unreversed
  rw [start, nil_append, map_filterMap_cached, map_append] at mapped
  exact mapped

theorem iterate_complete {count : Nat} (enough : items.length < count) :
    (iterate family evaluate items count).yielded.Perm (items.filterMap evaluate) ∧
      (iterate family evaluate items count).unevaluated = [] ∧
      (iterate family evaluate items count).unyielded = [] := by
  have fresh := family.prefetch_perm items
  rw [← fresh.length_eq, ← zero_add (length _)] at enough
  obtain ⟨exhausted, values⟩ :=
    take_complete (cached evaluate) (start family items) enough
  refine ⟨?_, exhausted.1, map_eq_nil_iff.mpr exhausted.2⟩
  have mapped := (values.trans (fresh.filterMap _)).map unreversed
  rw [map_filterMap_cached] at mapped
  exact mapped

theorem iterate_ordered (bounds : ∀ item ∈ items, ∀ value, evaluate item = some value →
      OrderDual.ofDual (rank item) ≤ value.1) (count : Nat) :
    ((iterate family evaluate items count).yielded.map Prod.fst).Pairwise (· ≤ ·) := by
  have ordered := take_ordered (cached evaluate) count (start family items) ?_
  · rw [pairwise_map]
    exact List.Pairwise.map _ (fun _ _ order => order) ordered
  · intro item member value result
    obtain ⟨plain, found, rfl⟩ := Option.map_eq_some_iff.mp result
    exact bounds item ((family.prefetch_perm items).mem_iff.mp member) plain found

theorem iterate_exact : LazilyExact items (fun item => OrderDual.ofDual (rank item)) evaluate
    (iterate family evaluate items) where
  yields count := by
    cases take_exhausts (cached evaluate) count (start family items) with
    | inl full => exact .inl ((length_map _).trans full)
    | inr exhausted => exact .inr ⟨exhausted.1, map_eq_nil_iff.mpr exhausted.2⟩
  complete _ enough := iterate_complete family evaluate items enough
  ordered bounds count := iterate_ordered family evaluate items bounds count
  items count :=
    (take_accounts (cached evaluate) count (start family items)).items.trans
      (family.prefetch_perm items)
  values count := iterate_values family evaluate items count

/-- The first value does not depend on how many are asked for. -/
theorem head_iterate (count : Nat) : (iterate family evaluate items (count + 1)).yielded.head? =
    (iterate family evaluate items 1).yielded.head? := by
  rw [iterate, iterate, head?_map, head?_map, head_take_succ,
    head_take_succ]

end Iterators

/-! ## The reranker -/

/-- An item of the prefetcher of a reranker: its lower bound with `T`, and what `W` packs. -/
structure Candidate (τ : Type) where
  lowerbound : Distance
  extra : τ
  payload : Payload
  head : Nat
  prefetch : List Nat

variable {τ : Type}

def Candidate.rank (candidate : Candidate τ) : Distanceᵒᵈ :=
  OrderDual.toDual candidate.lowerbound

/-- The `f` of a reranker: the distance of the vector of a payload, which is found by its
prefetched pages and head or by the payload itself, if it is there. -/
abbrev Evaluation := Payload → List Nat → Nat → Option Distance

/-- A candidate with its distance, `None` if it has vanished. -/
def Evaluation.apply (f : Evaluation) (candidate : Candidate τ) : Option (Distance × Payload) :=
  (f candidate.payload candidate.prefetch candidate.head).map fun distance =>
    (distance, candidate.payload)

/-- `Reranker::next` at most `count` times, and what `finish` hands back then. -/
def rerank [Heap] (family : PrefetcherFamily (@Candidate.rank τ)) (f : Evaluation)
    (candidates : List (Candidate τ)) (count : Nat) : Iteration (Candidate τ) Payload :=
  iterate family f.apply candidates count

/-! ## The children of a level -/

/-- A child with the lower bound of the distance of its centroid. -/
structure RoughChild where
  lowerbound : Distance
  child : Child

def RoughChild.rank (child : RoughChild) : Distanceᵒᵈ := OrderDual.toDual child.lowerbound

/-- `centroids::read`, with the norm and the first page of the child. -/
def RoughChild.measure (distance : List Nat → Nat → Distance) (rough : RoughChild) :
    Option (Distance × Word × Nat) :=
  some (distance rough.child.prefetch rough.child.head, rough.child.norm, rough.child.first)

section Steps

variable [Heap] (family : PrefetcherFamily RoughChild.rank) (distance : List Nat → Nat → Distance)
  (children : List RoughChild)

/-- The iterator that `step` of `default_search` and of `maxsim_search` returns, asked
for at most `count` children. -/
def step (count : Nat) : Iteration RoughChild (Word × Nat) :=
  iterate family (RoughChild.measure distance) children count

/-- `step` of `insert`: the loop runs once, and there is a child unless the tree is not
height-balanced. -/
def stepOfInsert : Option (Distance × Word × Nat) :=
  (step family distance children 1).yielded.head?

/-- With valid bounds, `insert` descends into a closest child. -/
theorem stepOfInsert_least {value : Distance × Word × Nat}
    (found : stepOfInsert family distance children = some value) :
    value ∈ children.filterMap (RoughChild.measure distance) ∧
      ((∀ rough ∈ children, rough.lowerbound ≤
          distance rough.child.prefetch rough.child.head) →
        ∀ rough ∈ children, value.1 ≤ distance rough.child.prefetch rough.child.head) := by
  have exact' := iterate_exact family (RoughChild.measure distance) children
  have yielded := (exact'.complete (children.length + 1) (Nat.lt_succ_self _)).1
  rw [stepOfInsert, step, ← head_iterate family _ _ children.length] at found
  obtain ⟨later, split⟩ := head?_eq_some_iff.mp found
  rw [split] at yielded
  refine ⟨yielded.mem_iff.mp mem_cons_self, ?_⟩
  intro bounds rough member
  have ordered := exact'.ordered (by
    intro item listed measured result
    cases result
    exact bounds item listed) (children.length + 1)
  rw [split, map_cons, pairwise_cons] at ordered
  have measured : (distance rough.child.prefetch rough.child.head, rough.child.norm,
      rough.child.first) ∈ value :: later :=
    yielded.mem_iff.mpr (mem_filterMap.mpr ⟨rough, member, rfl⟩)
  cases mem_cons.mp measured with
  | inl same => rw [← same]
  | inr behind => exact ordered.1 _ (mem_map_of_mem behind)

theorem stepOfInsert_eq_none : stepOfInsert family distance children = none ↔ children = [] := by
  have exact' := iterate_exact family (RoughChild.measure distance) children
  have yielded := (exact'.complete (children.length + 1) (Nat.lt_succ_self _)).1
  rw [stepOfInsert, step, ← head_iterate family _ _ children.length, head?_eq_none_iff]
  constructor
  · intro empty
    rw [empty] at yielded
    cases children with
    | nil => rfl
    | cons rough children => cases yielded.nil_eq
  · intro empty
    subst empty
    exact yielded.eq_nil

end Steps

/-- Lazy reranking is exact.  The reranker and the iterators of the searches yield every
value once, in the order of their distances if the bounds are valid, and wherever they
stop they have the rest; `insert` takes the first child of such an iterator. -/
theorem lazyReranking_exact [Heap] (family : PrefetcherFamily (@Candidate.rank τ))
    (f : Evaluation) (candidates : List (Candidate τ))
    (childFamily : PrefetcherFamily RoughChild.rank) (distance : List Nat → Nat → Distance)
    (children : List RoughChild) :
    LazilyExact candidates Candidate.lowerbound f.apply (rerank family f candidates) ∧
      LazilyExact children RoughChild.lowerbound (RoughChild.measure distance)
        (step childFamily distance children) ∧
      (stepOfInsert childFamily distance children = none ↔ children = []) ∧
      ∀ value, stepOfInsert childFamily distance children = some value →
        value ∈ children.filterMap (RoughChild.measure distance) ∧
          ((∀ rough ∈ children, rough.lowerbound ≤
              distance rough.child.prefetch rough.child.head) →
            ∀ rough ∈ children, value.1 ≤ distance rough.child.prefetch rough.child.head) := by
  refine ⟨iterate_exact family f.apply candidates, ?_, ?_, ?_⟩
  · exact iterate_exact childFamily (RoughChild.measure distance) children
  · exact stepOfInsert_eq_none childFamily distance children
  · intro value found
    exact stepOfInsert_least childFamily distance children found

end VectorChord.Vchordrq
