import VectorChord.Vchordrq.Descent

/-!
# The estimation of a MaxSim search

After the probed leaves, `maxsim_search` asks the iterator of the last level for more
leaves and adds up what their jump tuples count, until the threshold is reached.
-/

namespace VectorChord.Vchordrq

open Collections Index Paged List BestFirst Layout
open Prog hiding pure read
open Maxsim (Distance)

variable {kind : VectorKind} {t : Nat} {s : RStore kind}

/-! ## Counting tuples -/

/-- The number of tuples of some leaves, as their jump tuples have it. -/
def Layout.tuplesOf (layout : Layout) (firsts : List Nat) : Nat :=
  (firsts.map fun first => (layout.jump first).tuples).sum

/-- The estimation and the pages that were looked at, if the iterator goes on with the
given cells. -/
def Layout.settle (layout : Layout) :
    List Cell → (threshold : Nat) → Distance × List Nat → Distance × List Nat
  | [], _, found => found
  | cell :: cells, threshold, found =>
    if threshold = 0 then found
    else layout.settle cells (remainingThreshold threshold (layout.jump cell.first))
      (cell.1, found.2 ++ [cell.first])

theorem remainingThreshold_eq {threshold : Nat} (small : threshold ≤ u32Max)
    (jump : JumpTuple) : remainingThreshold threshold jump = threshold - jump.tuples := by
  rw [remainingThreshold]
  omega

section
variable (layout : Layout)

@[simp] theorem Layout.tuplesOf_nil : layout.tuplesOf [] = 0 := rfl

@[simp] theorem Layout.tuplesOf_cons (first : Nat) (firsts : List Nat) :
    layout.tuplesOf (first :: firsts) =
      (layout.jump first).tuples + layout.tuplesOf firsts := by
  simp [tuplesOf]

@[simp] theorem Layout.tuplesOf_append (firsts firsts' : List Nat) :
    layout.tuplesOf (firsts ++ firsts') = layout.tuplesOf firsts + layout.tuplesOf firsts' := by
  simp [tuplesOf]

theorem Layout.settle_zero (cells : List Cell) (found : Distance × List Nat) :
    layout.settle cells 0 found = found := by
  cases cells <;> rfl

theorem Layout.mem_settle {cells : List Cell} {threshold first : Nat}
    {found : Distance × List Nat} (member : first ∈ (layout.settle cells threshold found).2) :
    first ∈ found.2 ++ cells.map Cell.first := by
  induction cells generalizing threshold found with
  | nil => simpa [settle] using member
  | cons cell cells ih =>
    rw [settle] at member
    split_ifs at member
    · exact mem_append_left _ member
    · simpa using ih member

/-- The loop ends with the first leaf at which the threshold is reached, or the last. -/
theorem Layout.settle_spec {cells : List Cell} (more : cells ≠ []) {threshold : Nat}
    (small : threshold ≤ u32Max) (left : threshold ≠ 0) (found : Distance × List Nat) :
    ∃ front cell back, cells = front ++ cell :: back ∧
      layout.tuplesOf (front.map Cell.first) < threshold ∧
      (threshold ≤ layout.tuplesOf ((front ++ [cell]).map Cell.first) ∨ back = []) ∧
      layout.settle cells threshold found =
        (cell.1, found.2 ++ (front ++ [cell]).map Cell.first) := by
  induction cells generalizing threshold found with
  | nil => exact absurd rfl more
  | cons cell cells ih =>
    rw [settle, if_neg left, remainingThreshold_eq small]
    by_cases last : threshold - (layout.jump cell.first).tuples = 0 ∨ cells = []
    · refine ⟨[], cell, cells, rfl, pos_of_ne_zero left, ?_, ?_⟩
      · simpa [Nat.sub_eq_zero_iff_le] using last
      · cases last with
        | inl reached => rw [reached, settle_zero]; rfl
        | inr ended => rw [ended]; rfl
    · rw [not_or] at last
      obtain ⟨front, next, back, rfl, before, after, settled⟩ :=
        ih last.2 ((Nat.sub_le _ _).trans small) last.1 (cell.1, found.2 ++ [cell.first])
      refine ⟨cell :: front, next, back, rfl, ?_, ?_, ?_⟩
      · simp only [map_cons, tuplesOf_cons]
        omega
      · refine after.imp_left fun reached => ?_
        simp only [cons_append, map_cons, tuplesOf_cons]
        omega
      · rw [settled]
        simp

end

/-! ## The loop -/

section
variable [Heap] (query : Query kind) (epsilon : BitVec 32)
  (family : PrefetcherFamily RoughChild.rank) (s : RStore kind) (layout : Layout)

/-- What a level yields after at most `limit` answers, if it is asked for all the rest. -/
def Query.following (limit : Nat) (state : List Cell) : List Cell :=
  (BestFirst.take (query.valueOf s) ((query.roughOf epsilon layout state).length + 1)
    (query.progress epsilon family s layout limit state).state).yielded.map unreversed

/-- The cells that were not probed on the last of some levels, in the order in which that
level yields them. -/
def Query.unprobed (needsSort : Nat → Bool) (probes : List Nat) : Nat → List Cell
  | 0 => []
  | depth + 1 => query.following epsilon family s layout (probes.getD depth 0)
      (query.path epsilon family s layout needsSort probes depth).state

end

section
variable [Heap] {query : Query kind} {epsilon : BitVec 32} {layout : Layout}
  {family : PrefetcherFamily RoughChild.rank} {it : BestFirst.State family.source (Word × Nat)}
  {threshold : Nat} {needsSort : Nat → Bool} {probes : List Nat} {depth : Nat}

/-- The outcome of a round on a quiet store. -/
def Query.roundOf (query : Query kind) (s : RStore kind) (layout : Layout)
    (it : BestFirst.State family.source (Word × Nat)) (threshold : Nat)
    (found : Distance × List Nat) :
    BestFirst.State family.source (Word × Nat) × Nat × Distance × List Nat ⊕
      Distance × List Nat :=
  match BestFirst.next (query.valueOf s) it with
  | (none, _) => .inr found
  | (some (distance, _, first), _, it) =>
    if threshold = 0 then .inr found
    else .inl (it, remainingThreshold threshold (layout.jump first),
      OrderDual.ofDual distance, found.2 ++ [first])

theorem Tree.yields_estimateRound (quiet : s.Quiet) (tree : Tree s layout)
    (reads : Lazy.Reads t s query.evaluate (query.valueOf s) (family.source.remaining it.pending))
    (leaf : threshold ≠ 0 → ∀ cell ∈ (BestFirst.next (query.valueOf s) it).1,
      cell.2.2 ∈ layout.leaves) (found : Distance × List Nat) :
    Prog.Yields t s (query.estimateRound family (it, threshold, found))
      (query.roundOf s layout it threshold found) := by
  apply (Lazy.yields_next it reads).bind
  rw [Query.roundOf]
  rcases stepped : BestFirst.next (query.valueOf s) it with
    ⟨_ | ⟨distance, norm, first⟩, evaluated, it'⟩
  · exact yields_pure _
  · dsimp only
    split_ifs with reached
    · exact yields_pure _
    · rw [stepped] at leaf
      have there := tree.leaves first (leaf reached _ rfl)
      have present : ((pageAt s first).get 1).bind Tuple.asJump = some (layout.jump first) := by
        rw [there.found]
        rfl
      apply Prog.Yields.latched (getElem?_pages there.inside) (quiet first)
      · exact yields_expect present
      · exact yields_pure _

/-- The loop ends at once if the iterator has ended or nothing is left of the threshold. -/
theorem Tree.yields_loop_stop (quiet : s.Quiet) (tree : Tree s layout)
    (reads : Lazy.Reads t s query.evaluate (query.valueOf s) (family.source.remaining it.pending))
    (stops : (BestFirst.next (query.valueOf s) it).1 = none ∨ threshold = 0) {fuel : Nat}
    (enough : 0 < fuel) (found : Distance × List Nat) :
    Prog.Yields t s (Prog.loop (query.estimateRound family) fuel (it, threshold, found))
      found := by
  obtain ⟨fuel, rfl⟩ := Nat.exists_eq_succ_of_ne_zero enough.ne'
  have outcome : query.roundOf s layout it threshold found = .inr found := by
    rw [Query.roundOf]
    split
    · rfl
    · rename_i yields
      rw [yields] at stops
      exact if_pos (stops.resolve_left nofun)
  have round : Prog.Yields t s (query.estimateRound family (it, threshold, found))
      (query.roundOf s layout it threshold found) := by
    apply tree.yields_estimateRound quiet reads
    intro left cell member
    rw [stops.resolve_right left] at member
    cases member
  apply round.bind
  rw [outcome]
  exact yields_pure _

/-- The loop goes through what the iterator yields. -/
theorem Tree.yields_loop (quiet : s.Quiet) (tree : Tree s layout) {count : Nat}
    (reads : Lazy.Reads t s query.evaluate (query.valueOf s) (family.source.remaining it.pending))
    (ends : BestFirst.Exhausted (BestFirst.take (query.valueOf s) count it).state)
    (leaves : ∀ value ∈ (BestFirst.take (query.valueOf s) count it).yielded,
      value.2.2 ∈ layout.leaves) {fuel : Nat} (enough : count < fuel) (threshold : Nat)
    (found : Distance × List Nat) :
    Prog.Yields t s (Prog.loop (query.estimateRound family) fuel (it, threshold, found))
      (layout.settle ((BestFirst.take (query.valueOf s) count it).yielded.map unreversed)
        threshold found) := by
  induction count generalizing it fuel threshold found with
  | zero =>
    have last := next_of_exhausted (query.valueOf s) ends
    exact tree.yields_loop_stop quiet reads (.inl last) enough found
  | succ count ih =>
    have some : 0 < fuel := Nat.zero_lt_of_lt enough
    have fewer := next_subset (query.valueOf s) it
    by_cases reached : threshold = 0
    · rw [reached, settle_zero]
      exact tree.yields_loop_stop quiet reads (.inr rfl) some found
    · rw [BestFirst.take] at ends leaves ⊢
      rcases stepped : BestFirst.next (query.valueOf s) it with
        ⟨_ | ⟨distance, norm, first⟩, evaluated, it'⟩
      · exact tree.yields_loop_stop quiet reads (.inl (by rw [stepped])) some found
      · rw [stepped] at ends leaves fewer
        have round : Prog.Yields t s (query.estimateRound family (it, threshold, found))
            (query.roundOf s layout it threshold found) := by
          apply tree.yields_estimateRound quiet reads
          intro _ cell member
          rw [stepped] at member
          cases member
          exact leaves _ mem_cons_self
        obtain ⟨fuel, rfl⟩ := Nat.exists_eq_succ_of_ne_zero some.ne'
        apply round.bind
        rw [Query.roundOf, stepped]
        dsimp only
        rw [if_neg reached, map_cons, settle, if_neg reached]
        apply ih (reads.subset fewer) ends _ (Nat.lt_of_succ_lt_succ enough)
        intro value member
        exact leaves value (mem_cons_of_mem _ member)

/-! ## The search -/

variable (s query epsilon layout family) in
theorem take_following (limit : Nat) (state : List Cell) :
    BestFirst.Exhausted (BestFirst.take (query.valueOf s)
        ((query.roughOf epsilon layout state).length + 1)
        (query.progress epsilon family s layout limit state).state).state ∧
      (((query.progress epsilon family s layout limit state).yielded.map unreversed ++
        query.following epsilon family s layout limit state).map Cell.first).Perm
          ((state.map Cell.first).flatMap layout.below) := by
  have split := perm_progress s query epsilon layout family limit state
  have lengths := split.length_eq
  simp only [length_append, length_valueOf] at lengths
  have enough : (query.progress epsilon family s layout limit state).state.cache.length +
      (family.source.remaining
        (query.progress epsilon family s layout limit state).state.pending).length <
          (query.roughOf epsilon layout state).length + 1 := by
    omega
  obtain ⟨ends, rest⟩ := take_complete (query.valueOf s) _ enough
  refine ⟨ends, ?_⟩
  have order := (((rest.append_left _).trans split).map unreversed).map Cell.first
  rw [first_valueOf, first_roughOf, map_append] at order
  exact order

theorem path_it (kept : (query.path epsilon family s layout needsSort probes depth).it = some it) :
    ∃ above limit, above < depth ∧ it = (query.progress epsilon family s layout limit
      (query.path epsilon family s layout needsSort probes above).state).state := by
  induction depth with
  | zero => cases kept
  | succ depth ih =>
    rw [Query.path, Query.descended] at kept
    split_ifs at kept
    · cases kept
      exact ⟨depth, _, Nat.lt_succ_self depth, rfl⟩
    · obtain ⟨above, limit, before, same⟩ := ih kept
      exact ⟨above, limit, Nat.lt_succ_of_lt before, same⟩

theorem last_trace (needsSort : Nat → Bool) (probes : List Nat) (depth : Nat) :
    (query.path epsilon family s layout needsSort probes depth).trace.getLastD [] =
      (query.path epsilon family s layout needsSort probes depth).state.map Cell.first := by
  cases depth with
  | zero => rfl
  | succ depth =>
    rw [Query.path, Query.descended]
    split_ifs <;> simp

/-- What is left of an iterator is among what it started with. -/
theorem remaining_progress (limit : Nat) (state : List Cell) :
    family.source.remaining (query.progress epsilon family s layout limit state).state.pending ⊆
      query.roughOf epsilon layout state := by
  intro rough member
  have accounts := take_accounts (query.valueOf s) limit
    (start family (query.roughOf epsilon layout state))
  exact remaining_start _ (accounts.items.subset (mem_append_right _ member))

variable {state : List Cell}

omit [Heap] in
theorem Tree.yields_leaves (quiet : s.Quiet) (tree : Tree s layout)
    (dims : query.dim = layout.tuple.dim) (leaves : ∀ cell ∈ state, cell.first ∈ layout.leaves)
    (prefetcher : Option (Nat → Nat)) (small : threshold ≤ u32Max) :
    Prog.Yields t s (state.foldlM (fun (results, threshold) cell => do
      let (results, jump) ← query.searchLeaf epsilon Distance.fromF32 layout.tuple.isResidual
        prefetcher cell results
      pure (results, remainingThreshold threshold jump)) ([], threshold))
      (state.flatMap fun cell => query.leafCandidates epsilon Distance.fromF32
        layout.tuple.isResidual cell s (layout.tapes cell.first),
        threshold - layout.tuplesOf (state.map Cell.first)) := by
  apply yields_foldlM (fun front : List Cell =>
    (front.flatMap fun cell => query.leafCandidates epsilon Distance.fromF32
        layout.tuple.isResidual cell s (layout.tapes cell.first),
      threshold - layout.tuplesOf (front.map Cell.first)))
  intro front cell back split
  have leaf := tree.leaves cell.first (leaves cell (by simp [split]))
  rw [← dims] at leaf
  apply (leaf.yields_searchLeaf epsilon Distance.fromF32 layout.tuple.isResidual cell quiet
    prefetcher _).bind
  dsimp only
  rw [remainingThreshold_eq ((Nat.sub_le _ _).trans small), Nat.sub_sub]
  simp only [flatMap_append, flatMap_singleton, map_append, map_cons,
    map_nil, tuplesOf_append, tuplesOf_cons, tuplesOf_nil, add_zero]
  exact yields_pure _

/-- Past the probed leaves, the loop goes through the other leaves of the last level. -/
theorem Tree.yields_estimate (quiet : s.Quiet) (tree : Tree s layout)
    (dims : query.dim = layout.tuple.dim) (last : layout.tuple.heightOfRoot = depth + 2)
    (within : Within layout depth state) (limit left : Nat) :
    Prog.Yields t s
      (query.estimate family (query.progress epsilon family s layout limit state).state left)
      (layout.settle (query.following epsilon family s layout limit state) left
        (distanceNegInfinity, [])) := by
  have above : depth + 1 < layout.tuple.heightOfRoot := by omega
  have bottom : layout.level (depth + 1) = layout.leaves := by
    rw [Layout.leaves, last]
    rfl
  have below := within.below
  rw [bottom] at below
  obtain ⟨ends, order⟩ := take_following s query epsilon layout family limit state
  apply tree.yields_loop quiet _ ends
  · intro value member
    apply below.subset (order.subset _)
    rw [map_append, Query.following]
    exact mem_append_right _
      (mem_map_of_mem (f := Cell.first) (mem_map_of_mem (f := unreversed) member))
  · have firsts : (query.roughOf epsilon layout state).map (fun rough => rough.child.first) =
        (state.map Cell.first).flatMap layout.below := first_roughOf state
    have bound := below.length_le.trans tree.length_leaves
    rw [← firsts, length_map] at bound
    exact (Nat.succ_le_succ bound).trans_lt (by decide)
  · exact (tree.reads_evaluate quiet dims within above).subset (remaining_progress limit state)

/-- `maxsim_search` ranks the last level if there is a threshold. -/
def ranksLast (tuple : MetaTuple) (threshold : Nat) (depth : Nat) : Bool :=
  depth + 2 = tuple.heightOfRoot && threshold ≠ 0

theorem Tree.yields_estimateByThreshold (quiet : s.Quiet) (tree : Tree s layout)
    (dims : query.dim = layout.tuple.dim) (levels : layout.tuple.heightOfRoot = 1 + probes.length)
    {left : Nat} (fewer : left ≤ threshold) :
    Prog.Yields t s (query.estimateByThreshold family
      (query.path epsilon family s layout (ranksLast layout.tuple threshold) probes
        probes.length).it left)
      (layout.settle (query.unprobed epsilon family s layout (ranksLast layout.tuple threshold)
        probes probes.length) left (distanceNegInfinity, [])) := by
  have reads : ∀ depth limit, depth < probes.length →
      Lazy.Reads t s query.evaluate (query.valueOf s) (family.source.remaining
        (query.progress epsilon family s layout limit (query.path epsilon family s layout
          (ranksLast layout.tuple threshold) probes depth).state).state.pending) := by
    intro depth limit inside
    have above : depth + 1 < layout.tuple.heightOfRoot := by omega
    exact (tree.reads_evaluate quiet dims (within_path _ probes depth) above).subset
      (remaining_progress limit _)
  have rounds : 0 < iterations := by simp [iterations]
  cases Nat.eq_zero_or_pos left with
  | inl reached =>
    rw [reached, settle_zero]
    cases kept : (query.path epsilon family s layout (ranksLast layout.tuple threshold) probes
        probes.length).it with
    | none => exact yields_pure _
    | some it =>
      obtain ⟨depth, limit, inside, rfl⟩ := path_it kept
      exact tree.yields_loop_stop quiet (reads depth limit inside) (.inr rfl) rounds _
  | inr more =>
    cases size : probes.length with
    | zero => exact yields_pure _
    | succ depth =>
      have height : layout.tuple.heightOfRoot = depth + 2 := by omega
      have ranked : ranksLast layout.tuple threshold depth = true := by
        simp [ranksLast, height]
        omega
      rw [Query.path, Query.descended, ranked, Bool.or_true, if_pos rfl]
      exact tree.yields_estimate quiet dims height (within_path _ probes depth) _ left

/-- The cells that were not probed are cells of the level. -/
theorem first_unprobed (needsSort : Nat → Bool) (probes : List Nat) (depth : Nat) {cell : Cell}
    (member : cell ∈ query.unprobed epsilon family s layout needsSort probes depth) :
    cell.first ∈ layout.level depth := by
  cases depth with
  | zero => cases member
  | succ depth =>
    have order := (take_following s query epsilon layout family (probes.getD depth 0)
      (query.path epsilon family s layout needsSort probes depth).state).2
    apply (within_path needsSort probes depth).below.subset (order.subset _)
    rw [map_append]
    exact mem_append_right _ (mem_map_of_mem member)

theorem Tree.yields_maxsimSearch (quiet : s.Quiet) (tree : Tree s layout)
    (dims : query.dim = layout.tuple.dim) (levels : layout.tuple.heightOfRoot = 1 + probes.length)
    (small : threshold ≤ u32Max) (prefetcher : Option (Nat → Nat)) :
    let path := query.path epsilon family s layout (ranksLast layout.tuple threshold) probes
      probes.length
    let settled := layout.settle
      (query.unprobed epsilon family s layout (ranksLast layout.tuple threshold) probes
        probes.length)
      (threshold - layout.tuplesOf (path.state.map Cell.first)) (distanceNegInfinity, [])
    Prog.Yields t s (query.maxsimSearch epsilon family probes threshold prefetcher)
      ⟨path.state.flatMap fun cell => query.leafCandidates epsilon Distance.fromF32
        layout.tuple.isResidual cell s (layout.tapes cell.first),
        settled.1, path.trace, settled.2⟩ := by
  have leaves : ∀ cell ∈ (query.path epsilon family s layout (ranksLast layout.tuple threshold)
      probes probes.length).state, cell.first ∈ layout.leaves := by
    intro cell member
    rw [Layout.leaves, levels, Nat.add_sub_cancel_left]
    exact (within_path _ probes probes.length).mem member
  apply (tree.yields_searchRoot quiet dims levels).bind
  apply (tree.yields_descend quiet dims levels _).bind
  apply (tree.yields_leaves quiet dims leaves prefetcher small).bind
  apply (tree.yields_estimateByThreshold quiet dims levels (Nat.sub_le _ _)).bind
  exact yields_pure _

/-- On every tree that nobody writes to, the leaves that `maxsim_search` probes and those
that it looks at afterwards are jump pages of the tree.  The estimation is negative infinity
if the probed leaves reach the threshold or there is no other leaf, and otherwise the
distance of the first leaf after them at which the threshold is reached, or of the last. -/
theorem maxsimSearch_estimation (query : Query kind) (epsilon : BitVec 32)
    (family : PrefetcherFamily RoughChild.rank) (quiet : s.Quiet) (tree : Tree s layout)
    (dims : query.dim = layout.tuple.dim) (probes : List Nat)
    (levels : layout.tuple.heightOfRoot = 1 + probes.length) (threshold : Nat)
    (small : threshold ≤ u32Max) (prefetcher : Option (Nat → Nat)) (t : Nat) :
    ∃ found : MaxsimSearch,
      Prog.Yields t s (query.maxsimSearch epsilon family probes threshold prefetcher) found ∧
      let probed := found.trace.getLastD []
      let unprobed := query.unprobed epsilon family s layout (ranksLast layout.tuple threshold)
        probes probes.length
      (∀ first ∈ probed ++ found.decoded, first ∈ layout.leaves ∧
        (pageAt s first).get 1 = some (.jump (layout.jump first))) ∧
      (0 < threshold → ∀ depth, probes.length = depth + 1 →
        (probed ++ unprobed.map Cell.first).Perm
          (((query.path epsilon family s layout (ranksLast layout.tuple threshold) probes
            depth).state.map Cell.first).flatMap layout.below)) ∧
      (threshold ≤ layout.tuplesOf probed ∨ unprobed = [] →
        found.estimation = distanceNegInfinity ∧ found.decoded = []) ∧
      (layout.tuplesOf probed < threshold → unprobed ≠ [] →
        ∃ front cell back, unprobed = front ++ cell :: back ∧
          layout.tuplesOf (probed ++ front.map Cell.first) < threshold ∧
          (threshold ≤ layout.tuplesOf (probed ++ (front ++ [cell]).map Cell.first) ∨
            back = []) ∧
          found.estimation = cell.1 ∧
          found.decoded = (front ++ [cell]).map Cell.first) := by
  have bottom : layout.level probes.length = layout.leaves := by
    rw [Layout.leaves, levels, Nat.add_sub_cancel_left]
  refine ⟨_, tree.yields_maxsimSearch quiet dims levels small prefetcher, ?_⟩
  rw [last_trace]
  refine ⟨?_, ?_, ?_, ?_⟩
  · intro first member
    have leaf : first ∈ layout.leaves := by
      rw [← bottom]
      cases mem_append.mp member with
      | inl probed => exact (within_path _ probes probes.length).subset probed
      | inr decoded =>
        obtain ⟨cell, listed, rfl⟩ := mem_map.mp (layout.mem_settle decoded)
        exact first_unprobed _ probes probes.length listed
    exact ⟨leaf, (tree.leaves first leaf).found⟩
  · intro positive depth size
    have ranked : ranksLast layout.tuple threshold depth = true := by
      simp only [ranksLast, levels, size, add_comm 1, decide_true, Bool.true_and,
        decide_eq_true_eq]
      exact positive.ne'
    rw [size, Query.path, Query.descended, ranked, Bool.or_true, if_pos rfl, ← map_append]
    exact (take_following s query epsilon layout family _ _).2
  · intro stops
    have settled : layout.settle (query.unprobed epsilon family s layout
        (ranksLast layout.tuple threshold) probes probes.length)
        (threshold - layout.tuplesOf ((query.path epsilon family s layout
          (ranksLast layout.tuple threshold) probes probes.length).state.map Cell.first))
        (distanceNegInfinity, []) = (distanceNegInfinity, []) := by
      cases stops with
      | inl reached => rw [Nat.sub_eq_zero_of_le reached, settle_zero]
      | inr none => rw [none, settle]
    rw [settled]
    exact ⟨rfl, rfl⟩
  · intro reaches more
    obtain ⟨front, cell, back, split, before, after, settled⟩ := layout.settle_spec more
      ((Nat.sub_le _ _).trans small) (Nat.sub_ne_zero_of_lt reaches) (distanceNegInfinity, [])
    refine ⟨front, cell, back, split, ?_, ?_, ?_, ?_⟩
    · rw [tuplesOf_append]
      omega
    · refine after.imp_left fun reached => ?_
      rw [tuplesOf_append]
      omega
    · rw [settled]
    · rw [settled]
      rfl

end

/-! ## A tree with two leaves -/

def smallHeader : H1Header where
  metadata := fun _ _ => 0
  delta := fun _ => 0
  prefetch := [fun _ => 1]
  head := fun j => j.val + 1
  norm := fun _ => 0
  first := fun j => j.val + 3
  len := 2

def smallJump (first : Nat) : JumpTuple :=
  ⟨[1], 1, u32Max, u32Max, if first = 3 then 5 else u32Max, 3⟩

def smallEntry (payload : Option Payload) : AppendableTuple := ⟨fun _ => 0, 0, [9], 1, [0], payload⟩

def smallLayout : Layout where
  tuple := ⟨1, 2, false, false, none, [2, 1], 1, [], u32Max, [1], 1, 0, 2⟩
  children := fun first => if first = 2 then smallHeader.branches [fun _ => 0] else []
  jump := smallJump
  tapes := fun first tape => if first = 3 ∧ tape = .appendable then [5] else []

/-- The meta page, two centroids, the root, and two leaves, the first with an entry that was
deleted and one that is live. -/
def smallIndex : RStore .vecf32 where
  pages := [[.metaTuple smallLayout.tuple], [.centroid (.v0 () [0]), .centroid (.v0 () [1])],
    [.h1 (.v0 smallHeader [fun _ => 0])], [.jump (smallJump 3)], [.jump (smallJump 4)],
    [.appendable (smallEntry none), .appendable (smallEntry (some ⟨8, by decide⟩))]].map
      fun tuples => ⟨.last, tuples.map some⟩
  latches := []
  tracked := []

theorem leaf_smallIndex {first : Nat} (listed : first ∈ [3, 4]) :
    Leaf smallIndex 1 first (smallJump first) (smallLayout.tapes first) := by
  have empty : Walkable smallIndex [] u32Max := ⟨by decide, rfl, trivial, nofun, nodup_nil⟩
  rw [mem_pair] at listed
  rcases listed with rfl | rfl
  · refine ⟨by decide, rfl, empty, nofun, rfl, empty, nofun, nofun,
      ⟨by decide, rfl, ⟨rfl, trivial⟩, by decide, by decide⟩, ?_, by decide⟩
    intro id member
    rw [mem_singleton.mp member]
    exact ⟨rfl, by decide⟩
  · exact ⟨by decide, rfl, empty, nofun, rfl, empty, nofun, nofun, empty, nofun, nofun⟩

theorem centroid_smallIndex {head : Nat} (listed : head ∈ [1, 2]) :
    Centroid smallIndex 1 [1] head := by
  have inside : ∀ id ∈ [1], id < smallIndex.pages.length := by decide
  rw [mem_pair] at listed
  cases listed with
  | inl same => rw [same]; exact ⟨inside, ⟨([0], ()), rfl, rfl⟩⟩
  | inr same => rw [same]; exact ⟨inside, ⟨([1], ()), rfl, rfl⟩⟩

theorem node_smallIndex :
    Node smallIndex 1 2 (smallHeader.branches [fun _ => 0]) := by
  refine ⟨[2], ⟨by decide, rfl, ⟨rfl, trivial⟩, by decide, by decide⟩, ?_, ?_, ?_⟩
  · intro id member
    rw [mem_singleton.mp member]
    exact ⟨rfl, by decide⟩
  · intro block member
    rw [mem_singleton.mp member]
    rfl
  · rfl

theorem tree_smallIndex : Tree smallIndex smallLayout where
  size := by decide
  inside := by decide
  found := rfl
  height := by decide
  cells := by decide
  root := centroid_smallIndex mem_cons_self
  nodes := by
    intro depth above first member
    obtain rfl := Nat.lt_one_iff.mp (Nat.lt_of_succ_lt_succ above)
    rw [mem_singleton.mp member]
    exact node_smallIndex
  centroids := by
    intro depth above first member branch child
    obtain rfl := Nat.lt_one_iff.mp (Nat.lt_of_succ_lt_succ above)
    rw [mem_singleton.mp member] at child
    obtain ⟨j, filled, rfl⟩ := mem_map.mp child
    have lanes : ∀ j ∈ (finRange 32).filter (fun j => j.val < 2),
        lanePrefetch smallHeader.prefetch j = [1] ∧ j.val + 1 ∈ [1, 2] := by
      decide
    obtain ⟨prefetch, head⟩ := lanes j filled
    rw [H1Header.branch, prefetch]
    exact centroid_smallIndex head
  leaves := by
    intro first member
    exact leaf_smallIndex member
  nodup := by decide

def smallQuery : Query .vecf32 where
  dim := 1
  distance := fun stored => Distance.fromF32 (BitVec.ofNat 32 (stored.1.headD 0))
  block := fun _ _ _ _ _ => (0, 0)
  binary := fun _ _ _ _ _ _ => (0, 0)
  lower := fun rough _ _ => rough

/-- The hypotheses can be met: one of two leaves of three tuples is probed, and five tuples
are asked for. -/
theorem maxsimSearch_estimation_smallIndex : ∃ found : MaxsimSearch,
      Prog.Yields 0 smallIndex (@Query.maxsimSearch .vecf32 Heap.selection smallQuery 0
        (@PrefetcherFamily.plain _ _ Heap.selection) [1] 5 none) found ∧
      ∀ first ∈ found.trace.getLastD [] ++ found.decoded, first ∈ [3, 4] := by
  obtain ⟨found, yields, leaves, _⟩ := @maxsimSearch_estimation .vecf32 smallIndex Heap.selection
    smallLayout smallQuery 0 (@PrefetcherFamily.plain _ _ Heap.selection) (fun _ => rfl)
    tree_smallIndex rfl [1] rfl 5 (by decide) none 0
  exact ⟨found, yields, fun first member => (leaves first member).1⟩

end VectorChord.Vchordrq
