import VectorChord.Collections.Heap

/-!
# Lazy best-first evaluation

Items come with a key each, the largest first, and evaluating an item costs something and
yields a value with a key of its own, or nothing.  The values are wanted in the order of
their keys, and with as few evaluations as possible: an item is evaluated only while its
key is larger than that of every value at hand.

If no value has a larger key than its item, then the values come out in order.
-/

namespace VectorChord.Collections

open List Heap

/-- What hands out items one by one, with a test on the next of them.  The next item is
one with the largest key. -/
structure Source {ι κ : Type} [LinearOrder κ] (key : ι → κ) where
  State : Type
  remaining : State → List ι
  nextIf : (ι → Bool) → State → Option ι × State
  accepted : ∀ {predicate state item state'}, nextIf predicate state = (some item, state') →
    predicate item = true
  taken_perm : ∀ {predicate state item state'},
    nextIf predicate state = (some item, state') →
      (item :: remaining state').Perm (remaining state)
  taken_largest : ∀ {predicate state item state'},
    nextIf predicate state = (some item, state') →
      ∀ other ∈ remaining state, key other ≤ key item
  refused_perm : ∀ {predicate state state'}, nextIf predicate state = (none, state') →
    (remaining state').Perm (remaining state)
  refused : ∀ {predicate state state'}, nextIf predicate state = (none, state') →
    remaining state = [] ∨ ∃ item ∈ remaining state, predicate item = false ∧
      ∀ other ∈ remaining state, key other ≤ key item

/-! ## Refinement of sources -/

section

variable {ι κ σ : Type} [LinearOrder κ] {key : ι → κ} (source : Source key)
  (follows : source.State → σ → Prop) {remaining : σ → List ι}
  {nextIf : (ι → Bool) → σ → Option ι × σ}
  (perm : ∀ {state s}, follows state s → (remaining s).Perm (source.remaining state))
  (simulates : ∀ {state s} (predicate : ι → Bool), follows state s →
    (nextIf predicate s).1 = (source.nextIf predicate state).1 ∧
      follows (source.nextIf predicate state).2 (nextIf predicate s).2)

/-- `nextIf` on the states that follow one of the source. -/
def Source.followed (predicate : ι → Bool) (s : { s // ∃ state, follows state s }) :
    Option ι × { s // ∃ state, follows state s } :=
  ((nextIf predicate s.1).1, ⟨(nextIf predicate s.1).2,
    s.2.elim fun _ related => ⟨_, (simulates predicate related).2⟩⟩)

include perm in
theorem Source.nextIf_of_followed {predicate : ι → Bool} {answer : Option ι}
    {s s' : { s // ∃ state, follows state s }}
    (answered : source.followed follows simulates predicate s = (answer, s')) :
    ∃ state state', source.nextIf predicate state = (answer, state') ∧
      (remaining s.1).Perm (source.remaining state) ∧
      (remaining s'.1).Perm (source.remaining state') := by
  obtain ⟨state, related⟩ := s.2
  obtain ⟨same, next⟩ := simulates predicate related
  cases answered
  exact ⟨state, _, Prod.ext same.symm rfl, perm related, perm next⟩

/-- What answers as a source does, and has its items left, is a source. -/
def Source.refined : Source key where
  State := { s // ∃ state, follows state s }
  remaining s := remaining s.1
  nextIf := source.followed follows simulates
  accepted taken := by
    obtain ⟨_, _, step, _⟩ := source.nextIf_of_followed follows perm simulates taken
    exact source.accepted step
  taken_perm taken := by
    obtain ⟨_, _, step, before, after⟩ := source.nextIf_of_followed follows perm simulates taken
    exact (after.cons _).trans ((source.taken_perm step).trans before.symm)
  taken_largest taken other member := by
    obtain ⟨_, _, step, before, _⟩ := source.nextIf_of_followed follows perm simulates taken
    exact source.taken_largest step other (before.mem_iff.mp member)
  refused_perm refusal := by
    obtain ⟨_, _, step, before, after⟩ :=
      source.nextIf_of_followed follows perm simulates refusal
    exact after.trans ((source.refused_perm step).trans before.symm)
  refused refusal := by
    obtain ⟨_, _, step, before, _⟩ := source.nextIf_of_followed follows perm simulates refusal
    simpa only [before.mem_iff, ← perm_nil, before.congr_left] using source.refused step

end

namespace BestFirst

/-- The items that have not been evaluated, and the values that have not been yielded. -/
structure State {ι κ : Type} [LinearOrder κ] {key : ι → κ} (source : Source key)
    (β : Type) where
  pending : source.State
  cache : List (κ × β)

variable {ι κ β : Type} [LinearOrder κ] {key : ι → κ} {source : Source key} [Heap]

variable (key) in
/-- The key of an item is larger than that of every cached value. -/
def ahead (cache : List (κ × β)) (item : ι) : Bool :=
  match Heap.peek Prod.fst cache with
  | none => true
  | some top => decide (top.1 < key item)

/-- Cache the value of an item, if it has one. -/
def keep (cache : List (κ × β)) : Option (κ × β) → List (κ × β)
  | none => cache
  | some value => Heap.push Prod.fst value cache

/-- Evaluate items while they are ahead, and list them. -/
def fill (evaluate : ι → Option (κ × β)) : Nat → State source β → List ι × State source β
  | 0, s => ([], s)
  | fuel + 1, s =>
    match source.nextIf (ahead key s.cache) s.pending with
    | (none, pending) => ([], { s with pending := pending })
    | (some item, pending) =>
      let filled := fill evaluate fuel ⟨pending, keep s.cache (evaluate item)⟩
      (item :: filled.1, filled.2)

/-- What happened so far: the items evaluated, the values yielded, and the state. -/
structure Progress {ι κ : Type} [LinearOrder κ] {key : ι → κ} (source : Source key)
    (β : Type) where
  evaluated : List ι
  yielded : List (κ × β)
  state : State source β

/-- Yield one value, if there is one.  Every item is evaluated at most once, so there is
fuel enough. -/
def next (evaluate : ι → Option (κ × β)) (s : State source β) :
    Option (κ × β) × List ι × State source β :=
  let filled := fill evaluate ((source.remaining s.pending).length + 1) s
  match Heap.pop Prod.fst filled.2.cache with
  | none => (none, filled)
  | some (top, cache) => (some top, filled.1, { filled.2 with cache := cache })

/-- Yield at most a number of values. -/
def take (evaluate : ι → Option (κ × β)) : Nat → State source β → Progress source β
  | 0, s => ⟨[], [], s⟩
  | count + 1, s =>
    match next evaluate s with
    | (none, evaluated, s) => ⟨evaluated, [], s⟩
    | (some top, evaluated, s) =>
      let later := take evaluate count s
      ⟨evaluated ++ later.evaluated, top :: later.yielded, later.state⟩

theorem head_take_succ (evaluate : ι → Option (κ × β)) (count : Nat) (s : State source β) :
    (take evaluate (count + 1) s).yielded.head? = (next evaluate s).1 := by
  rw [take]
  split <;> simp [*]

theorem length_take_le (evaluate : ι → Option (κ × β)) (count : Nat) (s : State source β) :
    (take evaluate count s).yielded.length ≤ count := by
  induction count generalizing s with
  | zero => exact le_refl 0
  | succ count ih =>
    rw [take]
    split
    · exact Nat.zero_le _
    · exact Nat.succ_le_succ (ih _)

/-! ## Every item is accounted for -/

/-- The evaluated items are those gone from the source, and their values are yielded or
cached. -/
structure Accounts (evaluate : ι → Option (κ × β)) (s s' : State source β)
    (evaluated : List ι) (yielded : List (κ × β)) : Prop where
  items : (evaluated ++ source.remaining s'.pending).Perm (source.remaining s.pending)
  values : (yielded ++ s'.cache).Perm (s.cache ++ evaluated.filterMap evaluate)

/-- Nothing is left. -/
def Exhausted (s : State source β) : Prop := source.remaining s.pending = [] ∧ s.cache = []

variable {evaluate : ι → Option (κ × β)} {s s' : State source β} {evaluated : List ι}
  {yielded : List (κ × β)}

theorem keep_perm (cache : List (κ × β)) (evaluate : ι → Option (κ × β)) (item : ι) :
    (keep cache (evaluate item)).Perm (cache ++ [item].filterMap evaluate) := by
  cases result : evaluate item with
  | none => simp [keep, result]
  | some value =>
    simp only [keep, filterMap_cons, result, filterMap_nil]
    exact (push_perm _ _ _).trans (perm_append_singleton _ _).symm

theorem fill_accounts (evaluate : ι → Option (κ × β)) (fuel : Nat) (s : State source β) :
    Accounts evaluate s (fill evaluate fuel s).2 (fill evaluate fuel s).1 [] := by
  induction fuel generalizing s with
  | zero => exact ⟨.rfl, by simp [fill]⟩
  | succ fuel ih =>
    rw [fill]
    split
    · rename_i pending refusal
      exact ⟨source.refused_perm refusal, by simp⟩
    · rename_i item pending taken
      have rest := ih ⟨pending, keep s.cache (evaluate item)⟩
      constructor
      · exact (rest.items.cons item).trans (source.taken_perm taken)
      · refine rest.values.trans (((keep_perm s.cache evaluate item).append_right _).trans ?_)
        rw [append_assoc, ← filterMap_append]
        rfl

/-- With fuel for all items, what is left behind is not ahead. -/
theorem fill_stops (evaluate : ι → Option (κ × β)) (fuel : Nat) (s : State source β)
    (enough : (source.remaining s.pending).length < fuel) :
    ∀ item ∈ source.remaining (fill evaluate fuel s).2.pending,
      ∃ top, Heap.peek Prod.fst (fill evaluate fuel s).2.cache = some top ∧
        key item ≤ top.1 := by
  induction fuel generalizing s with
  | zero => exact absurd enough (Nat.not_lt_zero _)
  | succ fuel ih =>
    rw [fill]
    split
    · rename_i pending refusal
      intro item member
      have before := (source.refused_perm refusal).mem_iff.mp member
      cases source.refused refusal with
      | inl empty => rw [empty] at before; cases before
      | inr front =>
        obtain ⟨first, _, behind, largest⟩ := front
        dsimp only [ahead] at behind ⊢
        split at behind
        · cases behind
        · rename_i top found
          have bound : key first ≤ top.1 := not_lt.mp (of_decide_eq_false behind)
          exact ⟨top, found, le_trans (largest item before) bound⟩
    · rename_i item pending taken
      apply ih
      have size := (source.taken_perm taken).length_eq
      rw [length_cons] at size
      dsimp only
      omega

theorem next_accounts (evaluate : ι → Option (κ × β)) (s : State source β) :
    Accounts evaluate s (next evaluate s).2.2 (next evaluate s).2.1
      (next evaluate s).1.toList := by
  have filled := fill_accounts evaluate ((source.remaining s.pending).length + 1) s
  rw [next]
  split
  · exact filled
  · rename_i top cache popped
    exact ⟨filled.items, (pop_perm popped).trans filled.values⟩

/-- The values run out only after all items have been evaluated. -/
theorem exhausted_of_next (last : (next evaluate s).1 = none) :
    Exhausted (next evaluate s).2.2 := by
  have stops := fill_stops evaluate _ s (Nat.lt_succ_self _)
  rw [next] at last ⊢
  split at last
  · rename_i popped
    have empty := eq_nil_of_pop popped
    refine ⟨eq_nil_iff_forall_not_mem.mpr ?_, empty⟩
    intro item member
    obtain ⟨top, found, _⟩ := stops item member
    have cached := mem_of_peek found
    rw [empty] at cached
    cases cached
  · cases last

theorem next_of_exhausted (evaluate : ι → Option (κ × β)) (exhausted : Exhausted s) :
    (next evaluate s).1 = none := by
  have accounts := next_accounts evaluate s
  have items := accounts.items
  rw [exhausted.1, perm_nil, append_eq_nil_iff] at items
  have values := accounts.values
  rw [exhausted.2, items.1, filterMap_nil, append_nil, perm_nil, append_eq_nil_iff] at values
  exact Option.toList_eq_nil_iff.mp values.1

omit [Heap] in
theorem Accounts.trans {s'' : State source β} {evaluated' : List ι} {yielded' : List (κ × β)}
    (first : Accounts evaluate s s' evaluated yielded)
    (second : Accounts evaluate s' s'' evaluated' yielded') :
    Accounts evaluate s s'' (evaluated ++ evaluated') (yielded ++ yielded') := by
  constructor
  · rw [append_assoc]
    exact (second.items.append_left evaluated).trans first.items
  · rw [append_assoc, filterMap_append]
    apply (second.values.append_left yielded).trans
    rw [← append_assoc, ← append_assoc]
    exact first.values.append_right _

/-- After any number of values, what was not evaluated is in the source and what was
evaluated has been yielded or is cached. -/
theorem take_accounts (evaluate : ι → Option (κ × β)) (count : Nat) (s : State source β) :
    Accounts evaluate s (take evaluate count s).state (take evaluate count s).evaluated
      (take evaluate count s).yielded := by
  induction count generalizing s with
  | zero => exact ⟨.rfl, by simp [take]⟩
  | succ count ih =>
    have first := next_accounts evaluate s
    rw [take]
    split
    · rename_i stepped
      rw [stepped] at first
      exact first
    · rename_i top evaluated s' stepped
      rw [stepped] at first
      exact first.trans (ih s')

theorem take_exhausts (evaluate : ι → Option (κ × β)) (count : Nat) (s : State source β) :
    (take evaluate count s).yielded.length = count ∨
      Exhausted (take evaluate count s).state := by
  induction count generalizing s with
  | zero => exact .inl rfl
  | succ count ih =>
    rw [take]
    split
    · rename_i stepped
      have last : Exhausted (next evaluate s).2.2 := exhausted_of_next (by rw [stepped])
      rw [stepped] at last
      exact .inr last
    · rename_i top evaluated s' stepped
      cases ih s' with
      | inl full => exact .inl (congrArg (· + 1) full)
      | inr exhausted => exact .inr exhausted

/-- Asked for more values than there can be, the evaluation comes to its end. -/
theorem take_complete (evaluate : ι → Option (κ × β)) {count : Nat} (s : State source β)
    (enough : s.cache.length + (source.remaining s.pending).length < count) :
    Exhausted (take evaluate count s).state ∧ (take evaluate count s).yielded.Perm
      (s.cache ++ (source.remaining s.pending).filterMap evaluate) := by
  have accounts := take_accounts evaluate count s
  have exhausted : Exhausted (take evaluate count s).state := by
    cases take_exhausts evaluate count s with
    | inr exhausted => exact exhausted
    | inl full =>
      have values := accounts.values.length_eq
      have items := accounts.items.length_eq
      have kept := length_filterMap_le evaluate (take evaluate count s).evaluated
      simp only [length_append] at values items
      omega
  refine ⟨exhausted, ?_⟩
  have values := accounts.values
  have items := accounts.items
  rw [exhausted.2, append_nil] at values
  rw [exhausted.1, append_nil] at items
  exact values.trans ((items.filterMap evaluate).append_left s.cache)

/-! ## The values come in order -/

/-- No value that is at hand or to come has a larger key. -/
structure Below (limit : κ) (s : State source β) : Prop where
  cached : ∀ value ∈ s.cache, value.1 ≤ limit
  pending : ∀ item ∈ source.remaining s.pending, key item ≤ limit

variable (key) in
/-- The key of an item bounds that of its value. -/
def Bounds (evaluate : ι → Option (κ × β)) (items : List ι) : Prop :=
  ∀ item ∈ items, ∀ value, evaluate item = some value → value.1 ≤ key item

omit [Heap] in
theorem Below.accounts {limit : κ} (below : Below limit s)
    (bounds : Bounds key evaluate (source.remaining s.pending))
    (accounts : Accounts evaluate s s' evaluated yielded) :
    (∀ value ∈ yielded, value.1 ≤ limit) ∧ Below limit s' := by
  have values : ∀ value ∈ yielded ++ s'.cache, value.1 ≤ limit := by
    intro value member
    cases mem_append.mp (accounts.values.mem_iff.mp member) with
    | inl cached => exact below.cached value cached
    | inr fresh =>
      obtain ⟨item, evaluated, result⟩ := mem_filterMap.mp fresh
      have listed := accounts.items.mem_iff.mp (mem_append_left _ evaluated)
      exact le_trans (bounds item listed value result) (below.pending item listed)
  refine ⟨fun value member => values value (mem_append_left _ member), ?_, ?_⟩
  · exact fun value member => values value (mem_append_right _ member)
  · intro item member
    exact below.pending item (accounts.items.mem_iff.mp (mem_append_right _ member))

omit [Heap] in
theorem Bounds.accounts (bounds : Bounds key evaluate (source.remaining s.pending))
    (accounts : Accounts evaluate s s' evaluated yielded) :
    Bounds key evaluate (source.remaining s'.pending) := by
  intro item member
  exact bounds item (accounts.items.mem_iff.mp (mem_append_right _ member))

/-- A yielded value is at least as large as all that follow. -/
theorem below_of_next {top : κ × β} (yields : (next evaluate s).1 = some top) :
    Below top.1 (next evaluate s).2.2 := by
  have stops := fill_stops evaluate _ s (Nat.lt_succ_self _)
  rw [next] at yields ⊢
  split at yields
  · cases yields
  · rename_i value cache popped
    cases yields
    have largest := le_of_pop popped
    constructor
    · intro other member
      exact largest other ((pop_perm popped).mem_iff.mp (mem_cons_of_mem _ member))
    · intro item member
      obtain ⟨best, found, bound⟩ := stops item member
      exact le_trans bound (largest best (mem_of_peek found))

theorem take_ordered (evaluate : ι → Option (κ × β)) (count : Nat) (s : State source β)
    (bounds : Bounds key evaluate (source.remaining s.pending)) :
    (take evaluate count s).yielded.Pairwise fun earlier later => later.1 ≤ earlier.1 := by
  induction count generalizing s with
  | zero => exact .nil
  | succ count ih =>
    rw [take]
    split
    · exact .nil
    · rename_i top evaluated s' stepped
      have first := next_accounts evaluate s
      have below : Below top.1 (next evaluate s).2.2 := below_of_next (by rw [stepped])
      rw [stepped] at first below
      have rest := bounds.accounts first
      exact .cons (below.accounts rest (take_accounts evaluate count s')).1 (ih s' rest)

end BestFirst

end VectorChord.Collections
