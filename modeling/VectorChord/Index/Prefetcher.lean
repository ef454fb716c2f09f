import VectorChord.Transition.Machine

/-!
# Prefetchers

A prefetcher hands out the items of a sequence and, with each of them, an iterator over
the guards of the pages that the item asks for.  The plain prefetcher reads each page
when its guard is asked for.  The stream prefetcher feeds the page ids of the items to a
PostgreSQL read stream, which asks for them ahead of time through a callback, and takes
the next buffer of the stream for every guard.

The guards of an item outlive the call that returns it, so several of them can be
unfinished at once.  They are part of the state here, in the order in which their items
were returned, and a client may ask any of them for its next guard.
-/

namespace VectorChord.Index

open Transition List Option

/-- What can happen to a prefetcher. -/
inductive Call (ι : Type) where
  /-- The read stream calls its callback for one more block number. -/
  | lookAhead
  | next
  | nextIf (predicate : ι → Bool)
  /-- `next` of the guards that came with the `k`-th returned item. -/
  | guard (k : Nat)

/-- What the client sees of it.  A guard is the id of its page. -/
inductive Answer (ι : Type) where
  | silent
  | item (item : Option ι)
  | guard (id : Option Nat)
  /-- `LockBuffer` on an invalid buffer. -/
  | failure
  deriving DecidableEq, Repr

variable {ι : Type} (fetch : ι → List Nat)

/-! ## The plain prefetcher -/

/-- `PlainPrefetcher`: the sequence, and the page ids that each returned iterator has
left. -/
structure PlainPrefetcher (ι : Type) where
  sequence : List ι
  guards : List (List Nat)

namespace PlainPrefetcher

def new (sequence : List ι) : PlainPrefetcher ι := ⟨sequence, []⟩

def next (s : PlainPrefetcher ι) : PlainPrefetcher ι × Answer ι :=
  match s.sequence with
  | [] => (s, .item none)
  | e :: sequence => (⟨sequence, s.guards ++ [fetch e]⟩, .item (some e))

def nextIf (predicate : ι → Bool) (s : PlainPrefetcher ι) :
    PlainPrefetcher ι × Answer ι :=
  match s.sequence with
  | [] => (s, .item none)
  | e :: _ => if predicate e then s.next fetch else (s, .item none)

/-- `PlainPrefetcherGuards::next`. -/
def guard (k : Nat) (s : PlainPrefetcher ι) : PlainPrefetcher ι × Answer ι :=
  match s.guards[k]? with
  | some (id :: list) => ({ s with guards := s.guards.set k list }, .guard (some id))
  | _ => (s, .guard none)

end PlainPrefetcher

def plainPrefetcher : Machine (PlainPrefetcher ι) (Call ι) (Answer ι) where
  step s
    | .lookAhead => (s, .silent)
    | .next => s.next fetch
    | .nextIf predicate => s.nextIf fetch predicate
    | .guard k => s.guard k

/-! ## The stream prefetcher -/

/-- `Cache`: the items that have been pulled from the iterator and not been returned,
and the page ids of pulled items that the stream has not asked for. -/
structure Cache (ι : Type) where
  window : List ι
  tail : List Nat
  iter : Option (List ι)

namespace Cache

/-- The loop of the three methods: pull items until there are enough. -/
def pullUntil (enough : Cache ι → Bool) : List ι → Cache ι → Cache ι
  | [], cache => { cache with iter := some [] }
  | e :: iter, cache =>
    if enough cache then { cache with iter := some (e :: iter) }
    else pullUntil enough iter
      { cache with tail := cache.tail ++ fetch e, window := cache.window ++ [e] }

def pull (enough : Cache ι → Bool) (cache : Cache ι) : Cache ι :=
  match cache.iter with
  | none => cache
  | some iter => pullUntil fetch enough iter cache

def popId (cache : Cache ι) : Option Nat × Cache ι :=
  let cache := cache.pull fetch fun cache => !cache.tail.isEmpty
  match cache.tail with
  | [] => (none, cache)
  | id :: tail => (some id, { cache with tail := tail })

def popItemIf (predicate : ι → Bool) (cache : Cache ι) : Option ι × Cache ι :=
  let cache := cache.pull fetch fun cache => !cache.window.isEmpty
  match cache.window with
  | [] => (none, cache)
  | e :: window =>
    if predicate e then (some e, { cache with window := window }) else (none, cache)

def popItem (cache : Cache ι) : Option ι × Cache ι :=
  let cache := cache.pull fetch fun cache => !cache.window.isEmpty
  match cache.window with
  | [] => (none, cache)
  | e :: window => (some e, { cache with window := window })

/-- The items that have not been returned yet. -/
def items (cache : Cache ι) : List ι := cache.window ++ cache.iter.getD []

end Cache

/-- `PostgresReadStream`: the cache, and the buffers whose block numbers the callback has
produced and that have not been taken, with the page ids that each returned iterator has
left. -/
structure StreamPrefetcher (ι : Type) where
  cache : Cache ι
  buffers : List Nat
  guards : List (List Nat)

namespace StreamPrefetcher

def new (sequence : List ι) : StreamPrefetcher ι := ⟨⟨[], [], some sequence⟩, [], []⟩

/-- The read stream calls `pop_id`. -/
def lookAhead (s : StreamPrefetcher ι) : StreamPrefetcher ι :=
  match s.cache.popId fetch with
  | (none, cache) => { s with cache := cache }
  | (some id, cache) => { s with cache := cache, buffers := s.buffers ++ [id] }

/-- `read_stream_next_buffer`: the oldest buffer, after a call of `pop_id` if there is
none. -/
def nextBuffer (s : StreamPrefetcher ι) : Option Nat × StreamPrefetcher ι :=
  match s.buffers with
  | id :: buffers => (some id, { s with buffers := buffers })
  | [] =>
    match s.cache.popId fetch with
    | (id, cache) => (id, { s with cache := cache })

/-- Return an item, if there is one, with its guards. -/
def read (s : StreamPrefetcher ι) : Option ι × Cache ι → StreamPrefetcher ι × Answer ι
  | (none, cache) => ({ s with cache := cache }, .item none)
  | (some e, cache) =>
    ({ s with cache := cache, guards := s.guards ++ [fetch e] }, .item (some e))

def next (s : StreamPrefetcher ι) : StreamPrefetcher ι × Answer ι :=
  s.read fetch (s.cache.popItem fetch)

def nextIf (predicate : ι → Bool) (s : StreamPrefetcher ι) :
    StreamPrefetcher ι × Answer ι :=
  s.read fetch (s.cache.popItemIf fetch predicate)

/-- `PostgresReadStreamGuards::next`: the id only says whether there is one more guard. -/
def guard (k : Nat) (s : StreamPrefetcher ι) : StreamPrefetcher ι × Answer ι :=
  match s.guards[k]? with
  | some (_ :: list) =>
    match { s with guards := s.guards.set k list }.nextBuffer fetch with
    | (some id, s) => (s, .guard (some id))
    | (none, s) => (s, .failure)
  | _ => (s, .guard none)

end StreamPrefetcher

def streamPrefetcher : Machine (StreamPrefetcher ι) (Call ι) (Answer ι) where
  step s
    | .lookAhead => (s.lookAhead fetch, .silent)
    | .next => s.next fetch
    | .nextIf predicate => s.nextIf fetch predicate
    | .guard k => s.guard fetch k

/-! ## Refinement -/

namespace Cache

/-- Behind the ids that the stream has asked for, the tail continues the known ids with
those of the window. -/
def Aligned (asked known : List Nat) (cache : Cache ι) : Prop :=
  asked ++ cache.tail = known ++ cache.window.flatMap fetch

variable {fetch} {asked known : List Nat} {cache : Cache ι} {enough : Cache ι → Bool}

variable (fetch) in
theorem items_pull (enough : Cache ι → Bool) (cache : Cache ι) :
    (cache.pull fetch enough).items = cache.items := by
  have loop : ∀ iter cache, (pullUntil fetch enough iter cache).items =
      cache.window ++ iter := by
    intro iter
    induction iter with
    | nil => intro cache; rfl
    | cons e iter ih =>
      intro cache
      unfold pullUntil
      split
      next => rfl
      next => rw [ih, append_assoc, singleton_append]
  unfold pull
  split
  next => rfl
  next iter found => rw [loop, items, found, getD_some]

theorem Aligned.pull (aligned : Aligned fetch asked known cache) (enough : Cache ι → Bool) :
    Aligned fetch asked known (cache.pull fetch enough) := by
  have loop : ∀ iter cache, Aligned fetch asked known cache →
      Aligned fetch asked known (pullUntil fetch enough iter cache) := by
    intro iter
    induction iter with
    | nil => intro cache aligned; exact aligned
    | cons e iter ih =>
      intro cache aligned
      unfold pullUntil
      split
      next => exact aligned
      next =>
        -- the ids of the pulled item go to both sides
        apply ih
        have same : asked ++ cache.tail = known ++ cache.window.flatMap fetch := aligned
        simp only [Aligned, ← append_assoc, same, flatMap_append, flatMap_singleton]
  unfold Cache.pull
  split
  next => exact aligned
  next iter _ => exact loop iter cache aligned

/-- The loop stops when there are enough items or no more of them. -/
theorem pull_stops (fetch : ι → List Nat) (enough : Cache ι → Bool)
    (congr : ∀ cache iter, enough { cache with iter := iter } = enough cache)
    (cache : Cache ι) :
    enough (cache.pull fetch enough) = true ∨ (cache.pull fetch enough).iter.getD [] = [] := by
  have loop : ∀ iter cache, enough (pullUntil fetch enough iter cache) = true ∨
      (pullUntil fetch enough iter cache).iter.getD [] = [] := by
    intro iter
    induction iter with
    | nil => intro cache; exact Or.inr rfl
    | cons e iter ih =>
      intro cache
      unfold pullUntil
      split
      next found =>
        left
        rw [congr]
        exact found
      next => exact ih _
  unfold pull
  split
  next none => right; rw [none, getD_none]
  next iter _ => exact loop iter cache

/-- `pop_id` takes the next id that the stream has not asked for, and fails only when
all known ids have been asked for. -/
theorem popId_spec (aligned : Aligned fetch asked known cache) :
    (cache.popId fetch).2.items = cache.items ∧
      Aligned fetch (asked ++ (cache.popId fetch).1.toList) known (cache.popId fetch).2 ∧
      ((cache.popId fetch).1 = none → known <+: asked) := by
  have pulled := aligned.pull fun cache => !cache.tail.isEmpty
  have same := items_pull fetch (fun cache => !cache.tail.isEmpty) cache
  unfold popId
  dsimp only
  split
  next empty =>
    apply And.intro same
    constructor
    · rw [toList_none, append_nil]
      exact pulled
    · intro
      rw [Aligned, empty, append_nil] at pulled
      exact ⟨_, pulled.symm⟩
  next id tail found =>
    apply And.intro same
    constructor
    · rw [Aligned, found] at pulled
      rw [Aligned, toList_some, append_assoc, singleton_append]
      exact pulled
    · intro absent
      cases absent

/-- `pop_item_if` offers the first item that has not been returned. -/
theorem popItemIf_nil (predicate : ι → Bool) (none : cache.items = [])
    (aligned : Aligned fetch asked known cache) :
    ∃ cache', cache.popItemIf fetch predicate = (Option.none, cache') ∧
      cache'.items = [] ∧ Aligned fetch asked known cache' := by
  have pulled := aligned.pull fun cache => !cache.window.isEmpty
  have same := items_pull fetch (fun cache => !cache.window.isEmpty) cache
  unfold popItemIf
  generalize cache.pull fetch (fun cache => !cache.window.isEmpty) = cache' at pulled same
  have empty : cache'.window = [] := (append_eq_nil_iff.mp (same.trans none)).1
  exact ⟨cache', by simp only [empty], same.trans none, pulled⟩

theorem popItemIf_cons (predicate : ι → Bool) {e : ι} {rest : List ι}
    (first : cache.items = e :: rest) (aligned : Aligned fetch asked known cache) :
    ∃ cache', cache.popItemIf fetch predicate =
        (if predicate e then some e else none, cache') ∧
      cache'.items = (if predicate e then rest else e :: rest) ∧
      Aligned fetch asked (if predicate e then known ++ fetch e else known) cache' := by
  have pulled := aligned.pull fun cache => !cache.window.isEmpty
  have same := (items_pull fetch (fun cache => !cache.window.isEmpty) cache).trans first
  have stops := pull_stops fetch (fun cache => !cache.window.isEmpty)
    (fun _ _ => rfl) cache
  unfold popItemIf
  generalize cache.pull fetch (fun cache => !cache.window.isEmpty) = cache' at pulled same stops
  cases window : cache'.window with
  | nil =>
    -- the loop went on to the end of the iterator, which holds the item
    rw [window] at stops
    cases stops with
    | inl some => cases some
    | inr all => rw [items, window, all] at same; cases same
  | cons e' window' =>
    rw [items, window, cons_append, cons_eq_cons] at same
    rcases same with ⟨rfl, same⟩
    cases chosen : predicate e' with
    | true =>
      apply Exists.intro { cache' with window := window' }
      constructor
      · simp only [window, chosen, if_true]
      constructor
      · exact same
      · rw [Aligned, window, flatMap_cons, ← append_assoc] at pulled
        exact pulled
    | false =>
      apply Exists.intro cache'
      constructor
      · simp only [window, chosen, Bool.false_eq_true, if_false]
      constructor
      · rw [items, window, cons_append, same]
        rfl
      · exact pulled

theorem popItem_eq (cache : Cache ι) :
    cache.popItem fetch = cache.popItemIf fetch fun _ => true := by
  unfold popItem popItemIf
  dsimp only
  split <;> rfl

end Cache

namespace StreamPrefetcher

variable {fetch}

/-- The stream gives out the known ids in order. -/
theorem nextBuffer_spec {s : StreamPrefetcher ι} {id : Nat} {rest : List Nat}
    (aligned : s.cache.Aligned fetch s.buffers (id :: rest)) :
    ∃ cache buffers, s.nextBuffer fetch = (some id, ⟨cache, buffers, s.guards⟩) ∧
      cache.items = s.cache.items ∧ cache.Aligned fetch buffers rest := by
  unfold nextBuffer
  cases asked : s.buffers with
  | cons id' buffers =>
    rw [asked, Cache.Aligned, cons_append, cons_append, cons_eq_cons] at aligned
    rcases aligned with ⟨rfl, aligned⟩
    exact ⟨s.cache, buffers, rfl, rfl, aligned⟩
  | nil =>
    rw [asked] at aligned
    rcases Cache.popId_spec aligned with ⟨same, popped, missing⟩
    cases found : s.cache.popId fetch with
    | mk taken cache =>
      rw [found] at same popped missing
      cases taken with
      | none =>
        have short := (missing rfl).length_le
        cases short
      | some id' =>
        rw [Cache.Aligned, nil_append, toList_some, cons_append,
          cons_append, cons_eq_cons] at popped
        rcases popped with ⟨rfl, popped⟩
        exact ⟨cache, [], rfl, same, popped⟩

end StreamPrefetcher

/-- The two prefetchers have the same items left, the same guards are unfinished, and the
stream is about to deliver the pages of the unfinished guards in the order of their
items. -/
structure Related (s : StreamPrefetcher ι) (t : PlainPrefetcher ι) : Prop where
  items : s.cache.items = t.sequence
  guards : s.guards = t.guards
  aligned : s.cache.Aligned fetch s.buffers t.guards.flatten

/-- A guard is only asked for when the guards of all earlier items have been read to the
end. -/
def ReadInOrder (t : PlainPrefetcher ι) : Call ι → Prop
  | .guard k => t.guards.getD k [] = [] ∨ (t.guards.take k).flatten = []
  | _ => True

section Steps

variable {fetch} {s : StreamPrefetcher ι} {t : PlainPrefetcher ι} {k : Nat} {list : List Nat}

theorem Related.new (sequence : List ι) :
    Related fetch (.new sequence) (.new sequence) :=
  ⟨rfl, rfl, rfl⟩

theorem Related.lookAhead (related : Related fetch s t) :
    Related fetch (s.lookAhead fetch) t := by
  rcases Cache.popId_spec related.aligned with ⟨same, popped, _⟩
  unfold StreamPrefetcher.lookAhead
  cases found : s.cache.popId fetch with
  | mk taken cache =>
    rw [found] at same popped
    cases taken with
    | none =>
      rw [toList_none, append_nil] at popped
      exact ⟨same.trans related.items, related.guards, popped⟩
    | some id => exact ⟨same.trans related.items, related.guards, popped⟩

theorem Related.nextIf (related : Related fetch s t) (predicate : ι → Bool) :
    Related fetch (s.nextIf fetch predicate).1 (t.nextIf fetch predicate).1 ∧
      (s.nextIf fetch predicate).2 = (t.nextIf fetch predicate).2 := by
  unfold StreamPrefetcher.nextIf PlainPrefetcher.nextIf
  cases sequence : t.sequence with
  | nil =>
    rcases Cache.popItemIf_nil predicate (related.items.trans sequence) related.aligned with
      ⟨cache, popped, none, aligned⟩
    rw [popped]
    exact ⟨⟨none.trans sequence.symm, related.guards, aligned⟩, rfl⟩
  | cons e rest =>
    rcases Cache.popItemIf_cons predicate (related.items.trans sequence) related.aligned with
      ⟨cache, popped, items, aligned⟩
    rw [popped]
    cases chosen : predicate e with
    | false =>
      simp only [chosen, Bool.false_eq_true, if_false] at items aligned ⊢
      exact ⟨⟨items.trans sequence.symm, related.guards, aligned⟩, rfl⟩
    | true =>
      simp only [chosen, if_true] at items aligned
      simp only [chosen, if_true, StreamPrefetcher.read, PlainPrefetcher.next, sequence]
      apply And.intro _ trivial
      constructor
      · exact items
      · simp only [related.guards]
      · simp only [flatten_append, flatten_singleton]
        exact aligned

theorem plain_next_eq (t : PlainPrefetcher ι) :
    t.next fetch = t.nextIf fetch fun _ => true := by
  unfold PlainPrefetcher.nextIf
  split
  next none => rw [PlainPrefetcher.next, none]
  next => rfl

theorem stream_next_eq (s : StreamPrefetcher ι) :
    s.next fetch = s.nextIf fetch fun _ => true := by
  rw [StreamPrefetcher.next, Cache.popItem_eq, StreamPrefetcher.nextIf]

variable {id : Nat}

/-- The ids that are left before and after one of the guards of item `k` is read. -/
theorem flatten_guards {guards : List (List Nat)} (found : guards[k]? = some (id :: list)) :
    guards.flatten =
        (guards.take k).flatten ++ id :: (list ++ (guards.drop (k + 1)).flatten) ∧
      (guards.set k list).flatten =
        (guards.take k).flatten ++ (list ++ (guards.drop (k + 1)).flatten) := by
  rcases List.getElem?_eq_some_iff.mp found with ⟨inside, found⟩
  constructor
  · rw [← cons_append, ← found, ← flatten_cons, ← flatten_append,
      getElem_cons_drop, take_append_drop]
  · rw [set_eq_take_append_cons_drop, if_pos inside, flatten_append, flatten_cons]

/-- What one guard of item `k` gets from the stream, in any order of reading. -/
theorem Related.guard_eq (related : Related fetch s t) (found : t.guards[k]? = some (id :: list))
    {first : Nat} {rest : List Nat} (left : t.guards.flatten = first :: rest) :
    ∃ cache buffers, s.guard fetch k =
        (⟨cache, buffers, t.guards.set k list⟩, .guard (some first)) ∧
      cache.items = t.sequence ∧ cache.Aligned fetch buffers rest := by
  have aligned := related.aligned
  rw [left] at aligned
  rcases StreamPrefetcher.nextBuffer_spec
      (s := { s with guards := s.guards.set k list }) aligned with
    ⟨cache, buffers, taken, items, aligned⟩
  apply Exists.intro cache
  apply Exists.intro buffers
  constructor
  · unfold StreamPrefetcher.guard
    rw [related.guards, found]
    dsimp only
    rw [← related.guards, taken]
  · exact ⟨items.trans related.items, aligned⟩

theorem guard_none (none : t.guards.getD k [] = []) (related : Related fetch s t) :
    s.guard fetch k = (s, .guard Option.none) ∧ t.guard k = (t, .guard Option.none) := by
  unfold StreamPrefetcher.guard PlainPrefetcher.guard
  rw [related.guards]
  rw [getD_eq_getElem?_getD] at none
  cases found : t.guards[k]? with
  | none => exact ⟨rfl, rfl⟩
  | some list =>
    rw [found, getD_some] at none
    rw [none]
    exact ⟨rfl, rfl⟩

theorem exists_guard (some : t.guards.getD k [] ≠ []) :
    ∃ id list, t.guards[k]? = Option.some (id :: list) := by
  rw [getD_eq_getElem?_getD] at some
  cases found : t.guards[k]? with
  | none => rw [found] at some; exact absurd rfl some
  | some list =>
    cases list with
    | nil => rw [found] at some; exact absurd rfl some
    | cons id list => exact ⟨id, list, rfl⟩

theorem plain_guard (found : t.guards[k]? = some (id :: list)) :
    t.guard k = (⟨t.sequence, t.guards.set k list⟩, .guard (some id)) := by
  rw [PlainPrefetcher.guard, found]

theorem Related.guard (related : Related fetch s t) (inOrder : ReadInOrder t (.guard k)) :
    Related fetch (s.guard fetch k).1 (t.guard k).1 ∧
      (s.guard fetch k).2 = (t.guard k).2 := by
  by_cases none : t.guards.getD k [] = []
  · rw [(guard_none none related).1, (guard_none none related).2]
    exact ⟨related, rfl⟩
  · rcases exists_guard none with ⟨id, list, found⟩
    rcases flatten_guards found with ⟨before, after⟩
    rw [inOrder.resolve_left none, nil_append] at before after
    rcases related.guard_eq found before with ⟨cache, buffers, taken, items, aligned⟩
    rw [taken, plain_guard found]
    exact ⟨⟨items, rfl, after ▸ aligned⟩, rfl⟩

/-- Every call that respects the order keeps the prefetchers related, and they answer it
alike. -/
theorem Related.step (related : Related fetch s t) (call : Call ι)
    (inOrder : ReadInOrder t call) :
    Related fetch ((streamPrefetcher fetch).step s call).1
        ((plainPrefetcher fetch).step t call).1 ∧
      ((streamPrefetcher fetch).step s call).2 = ((plainPrefetcher fetch).step t call).2 := by
  cases call with
  | lookAhead => exact ⟨related.lookAhead, rfl⟩
  | next =>
    simp only [streamPrefetcher, plainPrefetcher, stream_next_eq, plain_next_eq]
    exact related.nextIf _
  | nextIf predicate => exact related.nextIf predicate
  | guard k => exact related.guard inOrder

/-- No page is asked for twice, by the unfinished guards and the items to come. -/
def Distinct (fetch : ι → List Nat) (t : PlainPrefetcher ι) : Prop :=
  (t.guards.flatten ++ t.sequence.flatMap fetch).Nodup

theorem Distinct.nextIf (distinct : Distinct fetch t) (predicate : ι → Bool) :
    Distinct fetch (t.nextIf fetch predicate).1 := by
  unfold PlainPrefetcher.nextIf
  split
  next => exact distinct
  next e rest sequence =>
    split
    next =>
      rw [Distinct, sequence, flatMap_cons, ← append_assoc] at distinct
      rw [PlainPrefetcher.next, sequence, Distinct, flatten_append, flatten_singleton]
      exact distinct
    next => exact distinct

theorem Distinct.guard (distinct : Distinct fetch t) (k : Nat) :
    Distinct fetch (t.guard k).1 := by
  unfold PlainPrefetcher.guard
  split
  next id list found =>
    rcases flatten_guards found with ⟨before, after⟩
    rw [Distinct, before, append_assoc, cons_append] at distinct
    rw [Distinct, after, append_assoc]
    exact ((perm_middle.nodup_iff).mp distinct).of_cons
  next => exact distinct

theorem Distinct.step (distinct : Distinct fetch t) (call : Call ι) :
    Distinct fetch ((plainPrefetcher fetch).step t call).1 := by
  cases call with
  | lookAhead => exact distinct
  | next =>
    simp only [plainPrefetcher, plain_next_eq]
    exact distinct.nextIf _
  | nextIf predicate => exact distinct.nextIf predicate
  | guard k => exact distinct.guard k

/-- If a guard is read out of order and no page occurs twice, the stream hands out the
page of an earlier item. -/
theorem Related.answer_ne (related : Related fetch s t) (distinct : Distinct fetch t)
    (call : Call ι) (outOfOrder : ¬ ReadInOrder t call) :
    ((streamPrefetcher fetch).step s call).2 ≠ ((plainPrefetcher fetch).step t call).2 := by
  cases call with
  | lookAhead | next | nextIf => exact absurd trivial outOfOrder
  | guard k =>
    rcases not_or.mp outOfOrder with ⟨unfinished, skipped⟩
    rcases exists_guard unfinished with ⟨id, list, found⟩
    rcases exists_cons_of_ne_nil skipped with ⟨first, rest, earlier⟩
    have before := (flatten_guards found).1
    rw [earlier, cons_append] at before
    rcases related.guard_eq found before with ⟨cache, buffers, taken, _, _⟩
    have different : first ≠ id := by
      rw [Distinct, before] at distinct
      have absent := (nodup_cons.mp distinct).1
      intro same
      apply absent
      simp [same]
    simp only [streamPrefetcher, plainPrefetcher, taken, plain_guard found]
    intro same
    cases same
    exact different rfl

end Steps

/-- The stream prefetcher returns the same items with the same guards as the plain one
whenever the guards are read in the order of their items and to the end; and if no page
occurs twice, only then. -/
theorem streamPrefetcher_answers (sequence : List ι) (calls : List (Call ι)) :
    ((plainPrefetcher fetch).Along ReadInOrder (.new sequence) calls →
      (streamPrefetcher fetch).answers (.new sequence) calls =
        (plainPrefetcher fetch).answers (.new sequence) calls) ∧
    ((sequence.flatMap fetch).Nodup →
      ((streamPrefetcher fetch).answers (.new sequence) calls =
          (plainPrefetcher fetch).answers (.new sequence) calls ↔
        (plainPrefetcher fetch).Along ReadInOrder (.new sequence) calls)) := by
  constructor
  · intro inOrder
    have start : Related fetch (.new sequence) (.new sequence) := Related.new sequence
    apply Machine.answers_eq_of_along _ start inOrder
    intro s t call related inOrder
    exact related.step call inOrder
  · intro distinct
    let related := fun s t => Related fetch s t ∧ Distinct fetch t
    have start : related (.new sequence) (.new sequence) := ⟨Related.new sequence, distinct⟩
    apply Machine.answers_eq_iff_along _ _ start
    · intro s t call both inOrder
      have next := both.1.step call inOrder
      exact ⟨⟨next.1, both.2.step call⟩, next.2⟩
    · intro s t call both outOfOrder
      exact both.1.answer_ne both.2 call outOfOrder

/-- A client that leaves the second page of the first item unread. -/
def earlyStop : List (Call (List Nat)) := [.next, .guard 0, .next, .guard 1]

/-- The second item asks for page 3 and is handed page 2. -/
theorem streamPrefetcher_misaligned :
    (streamPrefetcher id).answers (.new [[1, 2], [3]]) earlyStop =
        [.item (some [1, 2]), .guard (some 1), .item (some [3]), .guard (some 2)] ∧
      (plainPrefetcher id).answers (.new [[1, 2], [3]]) earlyStop =
        [.item (some [1, 2]), .guard (some 1), .item (some [3]), .guard (some 3)] := by
  decide

/-- A client that reads both pages of the first item, with a stream that looks ahead. -/
def readAll : List (Call (List Nat)) :=
  [.lookAhead, .lookAhead, .next, .guard 0, .lookAhead, .guard 0, .next, .guard 1]

theorem streamPrefetcher_answers_readAll :
    (streamPrefetcher id).answers (.new [[1, 2], [3]]) readAll =
        (plainPrefetcher id).answers (.new [[1, 2], [3]]) readAll ∧
      (plainPrefetcher id).Along ReadInOrder (.new [[1, 2], [3]]) readAll :=
  have inOrder : (plainPrefetcher id).Along ReadInOrder (.new [[1, 2], [3]]) readAll := by
    simp [readAll, Machine.Along, plainPrefetcher, ReadInOrder, PlainPrefetcher.new,
      PlainPrefetcher.next, PlainPrefetcher.guard]
  ⟨(streamPrefetcher_answers id [[1, 2], [3]] readAll).1 inOrder, inOrder⟩

end VectorChord.Index
