import VectorChord.Vchordrq.BuildLatches
import VectorChord.Vchordrq.Built
import VectorChord.Vchordrq.Estimation

/-!
# Probing

How much of a tree a search sees: every level keeps as many different children as it is
asked for, if there are so many, and a search that asks for all cells of every level
returns every live entry once.
-/

namespace VectorChord.Vchordrq

open Collections Index Paged Rabitq List
open Collections.Blocks (blocks)
open Maxsim (Distance)

variable {kind : VectorKind} {τ : Type} {t : Nat} {s : RStore kind}

/-! ## Entries -/

/-- What identifies an entry: its payload and the key of its vector. -/
abbrev EntryKey := Payload × Nat × List Nat

def Candidate.key (candidate : Candidate τ) : EntryKey :=
  (candidate.payload, candidate.head, candidate.prefetch)

/-- The live entries on the tapes of a leaf. -/
def entriesOf (s : RStore kind) (tapes : TapeKind → List Nat) : List EntryKey :=
  (blocks [] (frozenSlices s (tapes .frozen))).flatMap (fun block =>
      (block.1.branches block.2).map fun branch =>
        (branch.extra, branch.head, branch.prefetch)) ++
    (appendableTuples s (tapes .appendable)).filterMap fun tuple =>
      tuple.payload.map fun payload => (payload, tuple.head, tuple.prefetch)

/-- The live entries of an index. -/
def Layout.entries (layout : Layout) (s : RStore kind) : List EntryKey :=
  layout.leaves.flatMap fun first => entriesOf s (layout.tapes first)

/-- A search pushes one candidate for every live entry of a leaf. -/
theorem key_leafCandidates (query : Query kind) (epsilon : BitVec 32)
    (extra : BitVec 32 → τ) (isResidual : Bool) (cell : Cell) (s : RStore kind)
    (tapes : TapeKind → List Nat) :
    (query.leafCandidates epsilon extra isResidual cell s tapes).map Candidate.key =
      entriesOf s tapes := by
  rw [Query.leafCandidates, entriesOf, map_append, Query.frozenCandidates,
    Query.appendableCandidates, map_flatMap, map_filterMap]
  simp only [map_map, Option.map_map]
  rfl

/-! ## How many children are kept -/

section
variable [Heap] {query : Query kind} {epsilon : BitVec 32} {layout : Layout}
  {family : PrefetcherFamily RoughChild.rank} {probes : List Nat}

theorem length_progress (limit : Nat) (state : List Cell) :
    (query.progress epsilon family s layout limit state).yielded.length =
      min limit ((state.map Cell.first).flatMap layout.below).length := by
  have split := (perm_progress s query epsilon layout family limit state).length_eq
  have firsts : (query.roughOf epsilon layout state).map (fun rough => rough.child.first) =
      (state.map Cell.first).flatMap layout.below := first_roughOf state
  rw [← firsts, length_map]
  simp only [length_append, length_valueOf] at split
  have most : (query.progress epsilon family s layout limit state).yielded.length ≤ limit :=
    BestFirst.length_take_le _ _ _
  cases BestFirst.take_exhausts (query.valueOf s) limit
      (start family (query.roughOf epsilon layout state)) with
  | inl full =>
    rw [← Query.progress] at full
    omega
  | inr exhausted =>
    rw [← Query.progress] at exhausted
    rw [exhausted.1, exhausted.2] at split
    simp only [length_nil] at split
    omega

/-- One level keeps that many of the children of the cells of the level above. -/
structure Keeps (layout : Layout) (limit : Nat) (above kept : List Nat) : Prop where
  subperm : kept.Subperm (above.flatMap layout.below)
  length : kept.length = min limit (above.flatMap layout.below).length

/-- Both ways to go down a level keep as many children as they are asked for. -/
theorem keeps_descended {depth : Nat} {descent : Descent family}
    (within : Within layout depth descent.state) (needsSort : Bool) (limit : Nat) :
    Keeps layout limit (descent.state.map Cell.first)
      ((query.descended epsilon family s layout needsSort limit
        (layout.level (depth + 1)).length descent).state.map Cell.first) := by
  rw [Query.descended]
  split_ifs with ranked
  · have order := ((perm_progress s query epsilon layout family limit descent.state).map
      unreversed).map Cell.first
    rw [first_valueOf, first_roughOf, map_append, map_append] at order
    constructor
    · exact (sublist_append_left _ _).subperm.trans order.subperm
    · rw [length_map, length_map]
      exact length_progress limit descent.state
  · have all : (layout.level (depth + 1)).length ≤ limit := by
      simp only [Bool.or_eq_true, decide_eq_true_eq, not_or, not_lt] at ranked
      exact ranked.1.1
    have fewer := within.below.length_le
    constructor
    · rw [first_childrenOf]
    · rw [first_childrenOf]
      omega

theorem keeps_path (needsSort : Nat → Bool) (probes : List Nat) (depth : Nat) :
    Keeps layout (probes.getD depth 0)
      ((query.path epsilon family s layout needsSort probes depth).state.map Cell.first)
      ((query.path epsilon family s layout needsSort probes (depth + 1)).state.map Cell.first) :=
  keeps_descended (within_path needsSort probes depth) _ _

/-- With probes for all cells, all cells are seen. -/
theorem perm_path {needsSort : Nat → Bool} {depth : Nat}
    (full : ∀ d, d < depth → (layout.level (d + 1)).length ≤ probes.getD d 0) :
    ((query.path epsilon family s layout needsSort probes depth).state.map Cell.first).Perm
      (layout.level depth) := by
  induction depth with
  | zero => exact .rfl
  | succ depth ih =>
    have above := ih fun d before => full d (Nat.lt_succ_of_lt before)
    have children : (((query.path epsilon family s layout needsSort probes
        depth).state.map Cell.first).flatMap layout.below).Perm (layout.level (depth + 1)) :=
      above.flatMap_right layout.below
    have keeps : Keeps layout (probes.getD depth 0)
        ((query.path epsilon family s layout needsSort probes depth).state.map Cell.first)
        ((query.path epsilon family s layout needsSort probes
          (depth + 1)).state.map Cell.first) := keeps_path needsSort probes depth
    have enough := full depth (Nat.lt_succ_self depth)
    rw [← children.length_eq] at enough
    refine List.Perm.trans (keeps.subperm.perm_of_length_le ?_) children
    rw [keeps.length, min_eq_right enough]

theorem trace_path (needsSort : Nat → Bool) (probes : List Nat) (depth : Nat) :
    (query.path epsilon family s layout needsSort probes depth).trace =
      (List.range (depth + 1)).map fun d =>
        (query.path epsilon family s layout needsSort probes d).state.map Cell.first := by
  induction depth with
  | zero => rfl
  | succ depth ih =>
    rw [range_succ, map_append, ← ih, map_singleton, Query.path, Query.descended]
    split_ifs <;> rfl

/-- The cells that are kept at every level, from the root to the leaves. -/
structure Traces (layout : Layout) (probes : List Nat) (trace : List (List Nat)) : Prop where
  length : trace.length = probes.length + 1
  root : trace.head? = some [layout.tuple.first]
  distinct : ∀ kept ∈ trace, kept.Nodup
  keeps : ∀ depth < probes.length,
    Keeps layout (probes.getD depth 0) (trace.getD depth []) (trace.getD (depth + 1) [])
  leaves : ∀ first ∈ trace.getLastD [], first ∈ layout.leaves
  full : (∀ depth < probes.length, (layout.level (depth + 1)).length ≤ probes.getD depth 0) →
    (trace.getLastD []).Perm layout.leaves

theorem Tree.traces_path (tree : Tree s layout) (needsSort : Nat → Bool)
    (levels : layout.tuple.heightOfRoot = 1 + probes.length) :
    Traces layout probes
      (query.path epsilon family s layout needsSort probes probes.length).trace := by
  have bottom : layout.leaves = layout.level probes.length := by
    rw [Layout.leaves, levels, Nat.add_sub_cancel_left]
  constructor
  · rw [trace_path, length_map, length_range]
  · rw [trace_path, range_succ_eq_map]
    rfl
  · intro kept member
    rw [trace_path] at member
    obtain ⟨depth, listed, rfl⟩ := mem_map.mp member
    have above : depth < layout.tuple.heightOfRoot := by
      rw [levels, add_comm]
      exact mem_range.mp listed
    have within : Within layout depth
        (query.path epsilon family s layout needsSort probes depth).state :=
      within_path needsSort probes depth
    obtain ⟨order, perm, sublist⟩ := within
    exact perm.nodup (sublist.nodup (tree.nodup depth above))
  · intro depth above
    have kept : ∀ d, d < probes.length + 1 →
        (query.path epsilon family s layout needsSort probes probes.length).trace.getD d [] =
          (query.path epsilon family s layout needsSort probes d).state.map Cell.first := by
      intro d below
      rw [trace_path, getD_eq_getElem?_getD, List.getElem?_map, List.getElem?_range below]
      rfl
    rw [kept depth (Nat.lt_succ_of_lt above), kept (depth + 1) (Nat.succ_lt_succ above)]
    exact keeps_path needsSort probes depth
  · rw [last_trace, bottom]
    exact (within_path needsSort probes probes.length).subset
  · intro full
    rw [last_trace, bottom]
    exact perm_path full

omit [Heap] in
/-- The results of a search that sees all leaves. -/
theorem perm_entries (extra : BitVec 32 → τ) {state : List Cell}
    (all : (state.map Cell.first).Perm layout.leaves) :
    ((state.flatMap fun cell => query.leafCandidates epsilon extra layout.tuple.isResidual
      cell s (layout.tapes cell.first)).map Candidate.key).Perm (layout.entries s) := by
  rw [map_flatMap]
  simp only [key_leafCandidates]
  have order := all.flatMap_right fun first => entriesOf s (layout.tapes first)
  rw [flatMap_map] at order
  exact order

theorem Tree.yields_defaultSearch (quiet : s.Quiet) (tree : Tree s layout)
    (dims : query.dim = layout.tuple.dim) (levels : layout.tuple.heightOfRoot = 1 + probes.length)
    (prefetcher : Option (Nat → Nat)) :
    let path := query.path epsilon family s layout (fun _ => false) probes probes.length
    Prog.Yields t s (query.defaultSearch epsilon family probes prefetcher)
      (path.state.flatMap fun cell => query.leafCandidates epsilon (fun _ => ())
        layout.tuple.isResidual cell s (layout.tapes cell.first), path.trace) := by
  intro path
  have leaves : ∀ cell ∈ path.state, cell.first ∈ layout.leaves := by
    intro cell member
    rw [Layout.leaves, levels, Nat.add_sub_cancel_left]
    exact (within_path _ probes probes.length).mem member
  apply (tree.yields_searchRoot quiet dims levels).bind
  apply (tree.yields_descend quiet dims levels _).bind
  refine Prog.Yields.bind (Prog.yields_collect ?_ []) (Prog.yields_pure _)
  intro results cell member
  have leaf := tree.leaves cell.first (leaves cell member)
  rw [← dims] at leaf
  apply (leaf.yields_searchLeaf epsilon _ layout.tuple.isResidual cell quiet prefetcher _).bind
  exact Prog.yields_pure _

end

/-- A run of `build` that returns leaves a tree with the shape of the structures, and no latch.
A search of a tree, whatever its leaves hold, keeps at every level as many different children
as it is asked for, or all there are; with probes for all cells of every level, it visits every
leaf once and returns every live entry once. -/
theorem probing_complete [Heap] (op : Operator) [PageSpace (Tuple op.kind)] {options : Options}
    {structures : List (Structure op.kind)} (layered : WellLayered options.dim structures) :
    (∀ (t : Nat) (choices : Nat → Nat) (s : RStore op.kind),
      (build op options structures).run t choices ⟨[], [], []⟩ = .done () s →
      ∃ tuple : MetaTuple, tuple.dim = options.dim ∧
        tuple.isResidual = options.residualQuantization ∧
        tuple.heightOfRoot = structures.length ∧
        tuple.cells = structures.map (fun level => level.children.length) ∧
        Tree s (layoutOf s tuple) ∧ s.Quiet) ∧
    ∀ (s : RStore op.kind) (layout : Layout) (query : Query op.kind) (epsilon : BitVec 32)
      (family : PrefetcherFamily RoughChild.rank) (probes : List Nat) (threshold : Nat)
      (prefetcher : Option (Nat → Nat)) (t : Nat),
      s.Quiet → Tree s layout → query.dim = layout.tuple.dim →
      layout.tuple.heightOfRoot = 1 + probes.length → threshold ≤ u32Max →
      ∃ (results : List (Candidate Unit)) (trace : List (List Nat)) (found : MaxsimSearch),
        Prog.Yields t s (query.defaultSearch epsilon family probes prefetcher)
          (results, trace) ∧
        Prog.Yields t s (query.maxsimSearch epsilon family probes threshold prefetcher) found ∧
        Traces layout probes trace ∧ Traces layout probes found.trace ∧
        ((∀ depth < probes.length, (layout.level (depth + 1)).length ≤ probes.getD depth 0) →
          (results.map Candidate.key).Perm (layout.entries s) ∧
          (found.results.map Candidate.key).Perm (layout.entries s)) := by
  constructor
  · intro t choices s returned
    obtain ⟨tuple, dim, isResidual, height, cells, tree⟩ :=
      Prog.post_of_run returned (wlp_build op layered rfl)
    exact ⟨tuple, dim, isResidual, height, cells, tree s rfl,
      Prog.quiet_of_run rfl returned (latches_build op options structures)⟩
  · intro s layout query epsilon family probes threshold prefetcher t quiet tree dims levels small
    have bottom : layout.level probes.length = layout.leaves := by
      rw [Layout.leaves, levels, Nat.add_sub_cancel_left]
    refine ⟨_, _, _, tree.yields_defaultSearch quiet dims levels prefetcher,
      tree.yields_maxsimSearch quiet dims levels small prefetcher, tree.traces_path _ levels,
      tree.traces_path _ levels, ?_⟩
    intro full
    constructor <;>
    · apply perm_entries
      rw [← bottom]
      exact perm_path full

def smallOperator : Operator where
  kind := .vecf32
  build := fun vector _ => (⟨⟨0, 0, 0, 0⟩, List.replicate vector.dim false⟩, 0)
  norm := fun _ => 0
  length_signs := fun _ _ => length_replicate

/-- Two leaves below a root, with the same centroid. -/
def smallStructures : List (Structure .vecf32) :=
  let vector : Vector .vecf32 := ⟨1, [7], (), one_pos, rfl⟩
  [⟨[vector, vector], [[], []]⟩, ⟨[vector], [[1, 0]]⟩]

theorem wellLayered_smallStructures : WellLayered 1 smallStructures where
  dims := by simp [smallStructures]
  top := by simp [smallStructures]
  layered := ⟨List.Perm.swap 0 1 [], trivial⟩

/-- The hypotheses can be met: the root and the leaves are written and can be searched, and a
search of a tree with two leaves that asks for two returns the one live entry. -/
theorem probing_complete_smallStructures :
    let search := @Query.maxsimSearch .vecf32 Heap.selection smallQuery 0
      (@PrefetcherFamily.plain _ _ Heap.selection) [2] 5 none
    (∃ (s : RStore .vecf32) (tuple : MetaTuple) (found : MaxsimSearch), tuple.cells = [2, 1] ∧
      Prog.Yields 0 s search found ∧ Traces (layoutOf s tuple) [2] found.trace) ∧
    ∃ found : MaxsimSearch, Prog.Yields 0 smallIndex search found ∧
      (found.trace.getLastD []).Perm [3, 4] ∧
      found.results.map Candidate.key = [(⟨8, by decide⟩, 1, [9])] := by
  intro search
  obtain ⟨written, searched⟩ := @probing_complete Heap.selection smallOperator
    Slotted.firstFree ⟨1, false, false, 1⟩ smallStructures wellLayered_smallStructures
  constructor
  · obtain ⟨tuple, dim, _, height, cells, tree, quiet⟩ := written 0 (fun _ => 0) _ rfl
    obtain ⟨_, _, found, _, yields, _, traces, _⟩ := searched _ _ smallQuery 0
      (@PrefetcherFamily.plain _ _ Heap.selection) [2] 5 none 0 quiet tree dim.symm height
      (by decide)
    exact ⟨_, tuple, found, cells, yields, traces⟩
  · obtain ⟨_, _, found, _, yields, _, traces, all⟩ := searched smallIndex smallLayout smallQuery 0
      (@PrefetcherFamily.plain _ _ Heap.selection) [2] 5 none 0 (fun _ => rfl) tree_smallIndex
      rfl rfl (by decide)
    exact ⟨found, yields, traces.full (by decide), (all (by decide)).2.eq_singleton⟩

end VectorChord.Vchordrq
