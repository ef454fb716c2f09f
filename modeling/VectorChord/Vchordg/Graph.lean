import VectorChord.Vchordg.Vectors

/-!
# Candidates, results and pruning

The pure part of the graph search: the heap of candidates, of which up to `beam` are
taken at a time, the results, of which the best `ef` are kept in front, and the choice of
out-edges among candidates.
-/

namespace VectorChord.Vchordg

open List Option

/-- Which of several items with the least key a heap returns.  Any answer is possible. -/
class HeapPolicy where
  pick : List Distance → Nat

section
variable [HeapPolicy] {α : Type} (key : α → Distance)

/-- Take an item with the least key out of a heap. -/
def popMin (heap : List α) : Option (α × List α) := do
  let least ← (heap.map key).min?
  let ties := heap.zipIdx.filter fun (item, _) => key item = least
  let (_, position) ← ties[HeapPolicy.pick (heap.map key) % ties.length]?
  let item ← heap[position]?
  pure (item, heap.eraseIdx position)

/-- Take an item with the greatest key out of a heap. -/
def popMax (heap : List α) : Option (α × List α) := popMin (fun item => -key item) heap

variable {key}

theorem popMin_perm {heap rest : List α} {item : α}
    (popped : popMin key heap = some (item, rest)) : (item :: rest).Perm heap := by
  simp only [popMin, Option.bind_eq_bind, Option.bind_eq_some_iff, Option.pure_def,
    Option.some.injEq, Prod.mk.injEq] at popped
  rcases popped with ⟨_, _, ⟨_, position⟩, _, item', found, rfl, rfl⟩
  obtain ⟨inside, same⟩ := List.getElem?_eq_some_iff.mp found
  rw [← same]
  exact getElem_cons_eraseIdx_perm inside

theorem eq_nil_of_popMin {heap : List α} (popped : popMin key heap = none) : heap = [] := by
  cases found : (heap.map key).min? with
  | none => exact map_eq_nil_iff.mp (min?_eq_none_iff.mp found)
  | some least =>
    obtain ⟨item, member, smallest⟩ := mem_map.mp (min?_mem found)
    obtain ⟨position, located⟩ := getElem?_of_mem member
    have tie : (item, position) ∈ heap.zipIdx.filter fun (item, _) => key item = least := by
      simp [mk_mem_zipIdx_iff_getElem?, located, smallest]
    have inside := Nat.mod_lt (HeapPolicy.pick (heap.map key)) (length_pos_of_mem tie)
    simp only [popMin, found, Option.bind_eq_bind, bind_some,
      List.getElem?_eq_getElem inside] at popped
    have kept := mem_of_getElem (List.getElem?_eq_some_iff.mp
      (List.getElem?_eq_getElem inside)).2
    rw [mem_filter, mk_mem_zipIdx_iff_getElem?] at kept
    rw [kept.1] at popped
    cases popped

end

/-- A vertex that has been seen: its estimated distance, the pointers to its slices and
its place. -/
structure Candidate where
  score : Distance
  pointers : List Id
  vertex : Id
  deriving DecidableEq, Repr

/-- `Candidates`: those taken from the heap for the current beam, and the heap. -/
structure Candidates where
  beam : Nat
  front : List Candidate
  heap : List Candidate
  deriving DecidableEq, Repr

namespace Candidates

def push (candidates : Candidates) (item : Candidate) : Candidates :=
  { candidates with heap := item :: candidates.heap }

variable [HeapPolicy] {candidates : Candidates}

/-- Take up to `n` items from the heap. -/
def take : (n : Nat) → (heap : List Candidate) → List Candidate × List Candidate
  | 0, heap => ([], heap)
  | n + 1, heap =>
    match popMin Candidate.score heap with
    | none => ([], heap)
    | some (item, heap) =>
      let (items, heap) := take n heap
      (item :: items, heap)

def pop (candidates : Candidates) : Option Candidate × Candidates :=
  match candidates.front with
  | item :: front => (some item, { candidates with front := front })
  | [] =>
    let (items, heap) := take candidates.beam candidates.heap
    match items with
    | item :: front => (some item, { candidates with front := front, heap := heap })
    | [] => (none, { candidates with front := [], heap := heap })

omit [HeapPolicy] in
/-- All candidates that have not been taken. -/
def all (candidates : Candidates) : List Candidate := candidates.front ++ candidates.heap

omit [HeapPolicy] in
theorem mem_push {item other : Candidate} (member : other ∈ (candidates.push item).all) :
    other = item ∨ other ∈ candidates.all := by
  simp only [push, all, mem_append, mem_cons] at member ⊢
  tauto

theorem take_perm (n : Nat) (heap : List Candidate) :
    ((take n heap).1 ++ (take n heap).2).Perm heap := by
  induction n generalizing heap with
  | zero => exact .rfl
  | succ n ih =>
    rw [take]
    split
    · exact .rfl
    · rename_i popped
      exact ((ih _).cons _).trans (popMin_perm popped)

theorem take_eq_nil {n : Nat} {heap : List Candidate} (positive : 0 < n)
    (none : (take n heap).1 = []) : heap = [] := by
  obtain ⟨n, rfl⟩ := Nat.exists_eq_succ_of_ne_zero (ne_of_gt positive)
  rw [take] at none
  split at none
  · rename_i popped
    exact eq_nil_of_popMin popped
  · cases none

theorem beam_pop (candidates : Candidates) : candidates.pop.2.beam = candidates.beam := by
  rw [pop]
  split
  · rfl
  · dsimp only
    split <;> rfl

variable {candidates' : Candidates}

theorem pop_perm {item : Candidate} (popped : candidates.pop = (some item, candidates')) :
    (item :: candidates'.all).Perm candidates.all := by
  rw [pop] at popped
  split at popped
  · rename_i front
    cases popped
    simp [all, front]
  · rename_i front
    have taken := take_perm candidates.beam candidates.heap
    dsimp only at popped
    split at popped
    · rename_i items
      cases popped
      rw [items] at taken
      simpa [all, front] using taken
    · cases popped

theorem all_eq_nil_of_pop (positive : 0 < candidates.beam)
    (popped : candidates.pop = (none, candidates')) :
    candidates.all = [] ∧ candidates'.all = [] := by
  rw [pop] at popped
  split at popped
  · cases popped
  · rename_i front
    have taken := take_perm candidates.beam candidates.heap
    dsimp only at popped
    split at popped
    · cases popped
    · rename_i items
      cases popped
      have heap := take_eq_nil positive items
      rw [items, heap] at taken
      simp [all, front, heap, taken.eq_nil]

end Candidates

/-- `Results`: the best `ef` items, and the others. -/
structure Results (α : Type) where
  ef : Nat
  front : List (Distance × α)
  back : List (Distance × α)

namespace Results

variable [HeapPolicy] {α : Type} {results : Results α}

def push (results : Results α) (item : Distance × α) : Results α :=
  if results.front.length < results.ef then
    { results with front := item :: results.front }
  else
    match popMax Prod.fst (item :: results.front) with
    | some (worst, front) => { results with front := front, back := worst :: results.back }
    | none => results

omit [HeapPolicy] in
/-- The distance of the item in place `ef`. -/
def peekEfTh (results : Results α) : Option Distance :=
  if results.front.length < results.ef then none else (results.front.map Prod.fst).max?

def popMin (results : Results α) : Option ((Distance × α) × Results α) :=
  if results.front.length < results.ef then
    (Vchordg.popMin Prod.fst results.front).map fun (item, front) =>
      (item, { results with front := front })
  else
    match Vchordg.popMin Prod.fst results.back with
    | some (next, back) =>
      (Vchordg.popMin Prod.fst (next :: results.front)).map fun (item, front) =>
        (item, { results with front := front, back := back })
    | none =>
      (Vchordg.popMin Prod.fst results.front).map fun (item, front) =>
        (item, { results with front := front })

omit [HeapPolicy] in
/-- `into_inner`, both parts in a row. -/
def items (results : Results α) : List (Distance × α) := results.front ++ results.back

/-- The items behind the best `ef` are empty unless there are `ef` in front. -/
structure Settled (results : Results α) : Prop where
  positive : 0 < results.ef
  behind : results.front.length < results.ef → results.back = []

theorem push_perm (results : Results α) (item : Distance × α) :
    (results.push item).items.Perm (item :: results.items) := by
  rw [push]
  split
  · exact .rfl
  · split
    · rename_i worst front popped
      have order := (popMin_perm popped).append_right results.back
      exact perm_middle.trans order
    · rename_i popped
      cases eq_nil_of_popMin popped

theorem Settled.push (settled : results.Settled) (item : Distance × α) :
    (results.push item).Settled := by
  rw [Results.push]
  split
  · rename_i room
    exact ⟨settled.positive, fun _ => settled.behind room⟩
  · rename_i full
    split
    · rename_i worst front popped
      have size := (popMin_perm popped).length_eq
      rw [length_cons, length_cons] at size
      refine ⟨settled.positive, fun room => absurd ?_ full⟩
      dsimp only at room
      omega
    · exact settled

theorem popMin_spec {results' : Results α} {item : Distance × α} (settled : results.Settled)
    (popped : results.popMin = some (item, results')) :
    (item :: results'.items).Perm results.items ∧ results'.Settled := by
  rw [popMin] at popped
  split at popped
  · rename_i room
    obtain ⟨⟨item', front⟩, taken, same⟩ := map_eq_some_iff.mp popped
    cases same
    exact ⟨(popMin_perm taken).append_right _, settled.positive, fun _ => settled.behind room⟩
  · rename_i full
    split at popped
    · rename_i next back taken
      obtain ⟨⟨item', front⟩, taken', same⟩ := map_eq_some_iff.mp popped
      cases same
      have size := (popMin_perm taken').length_eq
      rw [length_cons, length_cons] at size
      constructor
      · have order := (popMin_perm taken').append_right back
        apply order.trans
        exact perm_middle.symm.trans ((popMin_perm taken).append_left results.front)
      · refine ⟨settled.positive, fun room => absurd ?_ full⟩
        dsimp only at room
        omega
    · rename_i none
      obtain ⟨⟨item', front⟩, taken, same⟩ := map_eq_some_iff.mp popped
      cases same
      exact ⟨(popMin_perm taken).append_right _, settled.positive, fun _ => eq_nil_of_popMin none⟩

theorem items_eq_nil_of_popMin (settled : results.Settled) (popped : results.popMin = none) :
    results.items = [] := by
  have positive := settled.positive
  rw [popMin] at popped
  split at popped
  · rename_i room
    have front := eq_nil_of_popMin (map_eq_none_iff.mp popped)
    rw [items, front, settled.behind room, append_nil]
  · rename_i full
    split at popped
    · cases eq_nil_of_popMin (map_eq_none_iff.mp popped)
    · rw [eq_nil_of_popMin (map_eq_none_iff.mp popped), length_nil] at full
      exact absurd positive full

end Results

/-- An edge under consideration: its distance, its end and the vector there. -/
structure Edge (kind : VectorKind) where
  distance : Distance
  pointers : List Id
  target : Id
  vector : Stored kind

variable (op : Operator)

/-- `robust_prune`: move edges to the result as long as no edge there is much closer, and
return the others. -/
def robustPrune (m : Nat) (alpha : Word) :
    (result pruned trace : List (Edge op.kind)) → List (Edge op.kind) × List (Edge op.kind)
  | result, pruned, [] => (result, pruned)
  | result, pruned, edge :: trace =>
    if result.length = m then (result, pruned)
    else if result.all fun other =>
        op.closer alpha edge.distance (op.distance edge.vector other.vector) then
      robustPrune m alpha (result ++ [edge]) pruned trace
    else robustPrune m alpha result (pruned ++ [edge]) trace

/-- `dedup_by_key`: of edges in a row with the same end, keep the first. -/
def dedup {kind : VectorKind} (trace : List (Edge kind)) : List (Edge kind) :=
  trace.foldl (fun kept edge =>
    if kept.getLast?.any fun last => last.target = edge.target then kept
    else kept ++ [edge]) []

/-- The order of places. -/
def before (u v : Id) : Bool := u.1 < v.1 || (u.1 = v.1 && u.2 ≤ v.2)

/-- The edges under consideration for `u`, each once and the closest first. -/
def consider {kind : VectorKind} (u : Id) (outs : List (Edge kind)) : List (Edge kind) :=
  let trace := dedup (outs.insertionSort fun edge other => before edge.target other.target)
  (trace.filter fun edge => edge.target ≠ u).insertionSort fun edge other =>
    edge.distance ≤ other.distance

/-- One round of pruning for every factor, until there are `m` edges; the edges chosen
and those left over. -/
def pruneRounds (m : Nat) (alpha : List Word) (trace : List (Edge op.kind)) :
    List (Edge op.kind) × List (Edge op.kind) :=
  alpha.foldl (fun state alpha =>
    if state.1.length = m then state else robustPrune op m alpha state.1 [] state.2) ([], trace)

/-- `prune`: the out-edges of `u` among those of `outs`. -/
def prune (u : Id) (outs : List (Edge op.kind)) (m : Nat) (alpha : List Word) :
    List (Edge op.kind) :=
  let state := pruneRounds op m (if op.isL2s then alpha else [op.one]) (consider u outs)
  if state.1.length = m then state.1 else (state.1 ++ state.2).take m

/-! ## Pruned edges -/

variable {op} {edge : Edge op.kind}

theorem mem_robustPrune {m : Nat} {alpha : Word} {result pruned trace : List (Edge op.kind)}
    (member : edge ∈ (robustPrune op m alpha result pruned trace).1 ∨
      edge ∈ (robustPrune op m alpha result pruned trace).2) :
    edge ∈ result ∨ edge ∈ pruned ∨ edge ∈ trace := by
  induction trace generalizing result pruned with
  | nil =>
    tauto
  | cons other trace ih =>
    unfold robustPrune at member
    split at member
    next => tauto
    next =>
      split at member <;>
      · have found := ih member
        simp only [mem_append, mem_cons] at found ⊢
        tauto

variable {kind : VectorKind} {alpha : List Word}

theorem mem_dedup {trace : List (Edge kind)} {edge : Edge kind} (member : edge ∈ dedup trace) :
    edge ∈ trace := by
  have loop : ∀ (trace kept : List (Edge kind)), edge ∈ trace.foldl (fun kept edge =>
      if kept.getLast?.any fun last => last.target = edge.target then kept
      else kept ++ [edge]) kept → edge ∈ kept ∨ edge ∈ trace := by
    intro trace
    induction trace with
    | nil => intro kept member; exact Or.inl member
    | cons other trace ih =>
      intro kept member
      rw [foldl_cons] at member
      have found := ih _ member
      split at found
      next => exact found.imp_right (mem_cons_of_mem other)
      next =>
        simp only [mem_append, mem_singleton] at found
        rw [mem_cons]
        tauto
  have found := loop trace [] member
  simpa using found

theorem mem_consider {u : Id} {outs : List (Edge kind)} {edge : Edge kind}
    (member : edge ∈ consider u outs) : edge ∈ outs ∧ edge.target ≠ u := by
  unfold consider at member
  rw [mem_insertionSort, mem_filter, decide_eq_true_eq] at member
  exact ⟨(mem_insertionSort _).mp (mem_dedup member.1), member.2⟩

theorem mem_pruneRounds {m : Nat} {trace : List (Edge op.kind)}
    (member : edge ∈ (pruneRounds op m alpha trace).1 ∨ edge ∈ (pruneRounds op m alpha trace).2) :
    edge ∈ trace := by
  have rounds : ∀ (alpha : List Word) (state : List (Edge op.kind) × List (Edge op.kind)),
      edge ∈ (alpha.foldl (fun state alpha => if state.1.length = m then state
        else robustPrune op m alpha state.1 [] state.2) state).1 ∨
      edge ∈ (alpha.foldl (fun state alpha => if state.1.length = m then state
        else robustPrune op m alpha state.1 [] state.2) state).2 →
      edge ∈ state.1 ∨ edge ∈ state.2 := by
    intro alpha
    induction alpha with
    | nil => intro state member; exact member
    | cons factor alpha ih =>
      intro state member
      rw [foldl_cons] at member
      have found := ih _ member
      split at found
      next => exact found
      next =>
        have back := mem_robustPrune found
        simpa using back
  have found := rounds alpha ([], trace) member
  simpa using found

/-- Pruning invents no edges, and no edge from a vertex to itself. -/
theorem mem_prune {u : Id} {outs : List (Edge op.kind)} {m : Nat}
    (member : edge ∈ prune op u outs m alpha) : edge ∈ outs ∧ edge.target ≠ u := by
  apply mem_consider
  unfold prune at member
  generalize (if op.isL2s then alpha else [op.one]) = factors at member
  dsimp only at member
  split at member
  next => exact mem_pruneRounds (Or.inl member)
  next => exact mem_pruneRounds (mem_append.mp (mem_of_mem_take member))

end VectorChord.Vchordg
