import VectorChord.Vchordrq.Tree

/-!
# From the root to the leaves

On a tree that nobody writes to, every level of a search is a function of the level
before: the children of the cells that were kept, ranked lazily or taken as they are.
-/

namespace VectorChord.Vchordrq

open Collections Index Paged Rabitq List
open Prog hiding pure
open Maxsim (Distance)

variable {kind : VectorKind} {t : Nat} {s : RStore kind}

/-! ## Trees -/

/-- Where the parts of an index are: the meta tuple, the children of every cell by its
first page, and the jump tuple and the tapes of every leaf. -/
structure Layout where
  tuple : MetaTuple
  children : Nat → List (Branch Nat)
  jump : Nat → JumpTuple
  tapes : Nat → TapeKind → List Nat

namespace Layout

variable (layout : Layout)

/-- The first pages of the children of a cell. -/
def below (first : Nat) : List Nat := (layout.children first).map Branch.extra

/-- The first pages of the cells at some depth below the given ones. -/
def levelsFrom (start : List Nat) : Nat → List Nat
  | 0 => start
  | depth + 1 => (levelsFrom start depth).flatMap layout.below

theorem levelsFrom_succ (start : List Nat) (depth : Nat) :
    layout.levelsFrom start (depth + 1) =
      layout.levelsFrom (start.flatMap layout.below) depth := by
  induction depth with
  | zero => rfl
  | succ depth ih => rw [levelsFrom, ih, levelsFrom]

/-- The first pages of the cells at some depth. -/
def level (depth : Nat) : List Nat := layout.levelsFrom [layout.tuple.first] depth

/-- The jump pages of the leaves. -/
def leaves : List Nat := layout.level (layout.tuple.heightOfRoot - 1)

end Layout

/-- An index with the given layout. -/
structure Tree (s : RStore kind) (layout : Layout) : Prop where
  size : s.pages.length ≤ u32Max
  inside : 0 < s.pages.length
  found : (pageAt s 0).get 1 = some (.metaTuple layout.tuple)
  height : 0 < layout.tuple.heightOfRoot
  cells : ∀ depth, depth < layout.tuple.heightOfRoot →
    layout.tuple.cells[layout.tuple.heightOfRoot - 1 - depth]? =
      some (layout.level depth).length
  root : Centroid s layout.tuple.dim layout.tuple.centroidPrefetch layout.tuple.centroidHead
  nodes : ∀ depth, depth + 1 < layout.tuple.heightOfRoot →
    ∀ first ∈ layout.level depth, Node s layout.tuple.dim first (layout.children first)
  centroids : ∀ depth, depth + 1 < layout.tuple.heightOfRoot →
    ∀ first ∈ layout.level depth, ∀ branch ∈ layout.children first,
      Centroid s layout.tuple.dim branch.prefetch branch.head
  leaves : ∀ first ∈ layout.leaves,
    Leaf s layout.tuple.dim first (layout.jump first) (layout.tapes first)
  nodup : ∀ depth, depth < layout.tuple.heightOfRoot → (layout.level depth).Nodup

theorem Tree.length_leaves {layout : Layout} (tree : Tree s layout) :
    layout.leaves.length ≤ u32Max := by
  have nodup := tree.nodup (layout.tuple.heightOfRoot - 1) (Nat.sub_lt tree.height one_pos)
  have within : layout.leaves ⊆ range s.pages.length := by
    intro first member
    exact mem_range.mpr (tree.leaves first member).inside
  have length := (subperm_of_subset nodup within).length_le
  rw [length_range] at length
  exact length.trans tree.size

/-! ## One level -/

section
variable [Heap] (query : Query kind) (epsilon : BitVec 32)
  (family : PrefetcherFamily RoughChild.rank) (s : RStore kind) (layout : Layout)

/-- The children of some cells, with lower bounds. -/
def Query.roughOf (state : List Cell) : List RoughChild :=
  state.flatMap fun cell => (layout.children cell.first).map
    (query.roughChild epsilon layout.tuple.isResidual cell)

/-- The children of some cells, without their distances. -/
def Layout.childrenOf (state : List Cell) : List Cell :=
  state.flatMap fun cell => (layout.children cell.first).map fun branch =>
    (distanceZero, branch.norm, branch.extra)

/-- What a search knows of a child that it has looked at. -/
def Query.valueOf : RoughChild → Option (Distanceᵒᵈ × Word × Nat) :=
  cached (RoughChild.measure (query.distanceAt s))

/-- The iterator of a level after at most `limit` answers. -/
def Query.progress (limit : Nat) (state : List Cell) :
    BestFirst.Progress family.source (Word × Nat) :=
  BestFirst.take (query.valueOf s) limit (start family (query.roughOf epsilon layout state))

/-- What `descendLevel` comes to. -/
def Query.descended (needsSort : Bool) (limit cells : Nat) (descent : Descent family) :
    Descent family :=
  if limit < cells || layout.tuple.isResidual || needsSort then
    let progress := query.progress epsilon family s layout limit descent.state
    let state := progress.yielded.map unreversed
    ⟨state, some progress.state, descent.trace ++ [state.map Cell.first]⟩
  else
    let state := layout.childrenOf descent.state
    ⟨state, descent.it, descent.trace ++ [state.map Cell.first]⟩

/-- The root with its distance, where it is needed. -/
def Query.rootCell : Cell :=
  (if layout.tuple.isResidual then
      query.distanceAt s layout.tuple.centroidPrefetch layout.tuple.centroidHead
    else distanceZero, layout.tuple.centroidNorm, layout.tuple.first)

/-- Where a search is after some levels. -/
def Query.path (needsSort : Nat → Bool) (probes : List Nat) : Nat → Descent family
  | 0 => ⟨[query.rootCell s layout], none, [[layout.tuple.first]]⟩
  | depth + 1 => query.descended epsilon family s layout (needsSort depth)
      (probes.getD depth 0) (layout.level (depth + 1)).length (path needsSort probes depth)

end

section
variable {query : Query kind} {epsilon : BitVec 32} {layout : Layout} {depth : Nat}
  {state : List Cell} {family : PrefetcherFamily RoughChild.rank}

/-- The cells are different cells of a level. -/
def Within (layout : Layout) (depth : Nat) (state : List Cell) : Prop :=
  (state.map Cell.first).Subperm (layout.level depth)

theorem Within.mem (within : Within layout depth state) {cell : Cell} (member : cell ∈ state) :
    cell.first ∈ layout.level depth :=
  within.subset (mem_map_of_mem member)

theorem Tree.yields_roughChildren (quiet : s.Quiet) (tree : Tree s layout)
    (dims : query.dim = layout.tuple.dim) (within : Within layout depth state)
    (above : depth + 1 < layout.tuple.heightOfRoot) :
    Prog.Yields t s (query.roughChildren epsilon layout.tuple.isResidual state)
      (query.roughOf epsilon layout state) := by
  apply yields_collect _ []
  intro results cell member
  have node := tree.nodes depth above cell.first (within.mem member)
  rw [← dims] at node
  exact node.yields_forNext quiet _ results

theorem Tree.yields_fastChildren (quiet : s.Quiet) (tree : Tree s layout)
    (within : Within layout depth state) (above : depth + 1 < layout.tuple.heightOfRoot) :
    Prog.Yields t s (fastChildren state) (layout.childrenOf state) := by
  apply yields_collect _ []
  intro results cell member
  have node := tree.nodes depth above cell.first (within.mem member)
  apply (node.yields_readH1Tape quiet).bind
  rw [map_map]
  exact yields_pure _

theorem Tree.reads_evaluate (quiet : s.Quiet) (tree : Tree s layout)
    (dims : query.dim = layout.tuple.dim) (within : Within layout depth state)
    (above : depth + 1 < layout.tuple.heightOfRoot) :
    Lazy.Reads t s query.evaluate (query.valueOf s) (query.roughOf epsilon layout state) := by
  intro rough member
  obtain ⟨cell, kept, listed⟩ := mem_flatMap.mp member
  obtain ⟨branch, child, rfl⟩ := mem_map.mp listed
  have centroid := tree.centroids depth above cell.first (within.mem kept) branch child
  rw [← dims] at centroid
  apply (query.yields_measure quiet centroid).bind
  exact yields_pure _

theorem remaining_start (items : List RoughChild) :
    family.source.remaining (start (β := Word × Nat) family items).pending ⊆ items :=
  (family.prefetch_perm items).subset

/-- One level of a search. -/
theorem Tree.yields_descendLevel [Heap] (quiet : s.Quiet) (tree : Tree s layout)
    (dims : query.dim = layout.tuple.dim) {descent : Descent family}
    (within : Within layout depth descent.state) (above : depth + 1 < layout.tuple.heightOfRoot)
    (needsSort : Bool) (limit cells : Nat) :
    Prog.Yields t s (query.descendLevel epsilon family layout.tuple.isResidual needsSort limit
      cells descent) (query.descended epsilon family s layout needsSort limit cells descent) := by
  have reads : Lazy.Reads t s query.evaluate (query.valueOf s)
      (query.roughOf epsilon layout descent.state) := tree.reads_evaluate quiet dims within above
  rw [Query.descendLevel, Query.descended]
  split_ifs
  · apply (tree.yields_roughChildren quiet dims within above).bind
    apply (Lazy.yields_take limit _ (reads.subset (remaining_start _))).bind
    exact yields_pure _
  · apply (tree.yields_fastChildren quiet within above).bind
    exact yields_pure _

/-! ## All levels -/

theorem Tree.yields_searchRoot (quiet : s.Quiet) (tree : Tree s layout)
    (dims : query.dim = layout.tuple.dim) {probes : List Nat}
    (levels : layout.tuple.heightOfRoot = 1 + probes.length) :
    Prog.Yields t s (query.searchRoot probes) (layout.tuple, query.rootCell s layout) := by
  have present : ((pageAt s 0).get 1).bind Tuple.asMeta = some layout.tuple := by
    rw [tree.found]
    rfl
  have root : Centroid (s.acquire ⟨t, 0, .share, .plain⟩) query.dim
      layout.tuple.centroidPrefetch layout.tuple.centroidHead := by
    rw [dims]
    exact ⟨tree.root.inside, tree.root.found⟩
  have measured : Prog.Yields t (s.acquire ⟨t, 0, .share, .plain⟩)
      (query.measureRoot layout.tuple) (query.rootCell s layout).1 := by
    rw [Query.measureRoot, Query.rootCell]
    split_ifs
    · exact query.yields_measure (quiet.acquire t 0 .plain) root
    · exact yields_pure _
  simp only [Query.searchRoot, readMeta, bind_eq, bind_assoc]
  rw [Prog.Yields, returns_bind]
  apply returns_read (getElem?_pages tree.inside) (quiet 0)
  rw [returns_bind]
  apply returns_expect present
  rw [if_neg (not_not_intro dims.symm), if_neg (not_not_intro levels), returns_bind]
  apply returns_mono measured
  rintro distance s' ⟨rfl, rfl⟩
  exact returns_dropRead ⟨rfl, rfl⟩

/-- Children of different cells are different. -/
theorem Within.below (within : Within layout depth state) :
    ((state.map Cell.first).flatMap layout.below).Subperm (layout.level (depth + 1)) := by
  obtain ⟨cells, order, sublist⟩ := within
  exact ⟨cells.flatMap layout.below, order.flatMap_right _, sublist.flatMap _⟩

theorem first_childrenOf (state : List Cell) :
    (layout.childrenOf state).map Cell.first =
      (state.map Cell.first).flatMap layout.below := by
  simp [Layout.childrenOf, Layout.below, map_flatMap, flatMap_map, Function.comp_def, Cell.first]

theorem first_roughOf (state : List Cell) :
    (query.roughOf epsilon layout state).map (fun rough => rough.child.first) =
      (state.map Cell.first).flatMap layout.below := by
  simp [Query.roughOf, Layout.below, map_flatMap, flatMap_map, Function.comp_def,
    Query.roughChild, Branch.child]

theorem first_valueOf (items : List RoughChild) :
    ((items.filterMap (query.valueOf s)).map unreversed).map Cell.first =
      items.map fun rough => rough.child.first := by
  induction items with
  | nil => rfl
  | cons rough items ih => exact congrArg (rough.child.first :: ·) ih

theorem length_valueOf (items : List RoughChild) :
    (items.filterMap (query.valueOf s)).length = items.length := by
  induction items with
  | nil => rfl
  | cons rough items ih => exact congrArg (· + 1) ih

section
variable [Heap] {family : PrefetcherFamily RoughChild.rank}

variable (query epsilon family s layout) in
/-- What a level has yielded and what it has left are the children of its cells. -/
theorem perm_progress (limit : Nat) (state : List Cell) :
    ((query.progress epsilon family s layout limit state).yielded ++
      ((query.progress epsilon family s layout limit state).state.cache ++
        (family.source.remaining
          (query.progress epsilon family s layout limit state).state.pending).filterMap
            (query.valueOf s))).Perm
      ((query.roughOf epsilon layout state).filterMap (query.valueOf s)) := by
  have accounts := BestFirst.take_accounts (query.valueOf s) limit
    (start family (query.roughOf epsilon layout state))
  have items := accounts.items.trans (family.prefetch_perm _)
  rw [← append_assoc]
  apply (accounts.values.append_right _).trans
  rw [start, nil_append, ← filterMap_append]
  exact items.filterMap _

theorem Within.progress {state : List Cell} (within : Within layout depth state) (limit : Nat) :
    Within layout (depth + 1)
      ((query.progress epsilon family s layout limit state).yielded.map unreversed) := by
  have order := ((perm_progress s query epsilon layout family limit state).map unreversed).map
    Cell.first
  rw [first_valueOf, first_roughOf, map_append, map_append] at order
  exact ((sublist_append_left _ _).subperm.trans order.subperm).trans within.below

theorem Within.descended {descent : Descent family} (within : Within layout depth descent.state)
    (needsSort : Bool) (limit cells : Nat) :
    Within layout (depth + 1)
      (query.descended epsilon family s layout needsSort limit cells descent).state := by
  rw [Query.descended]
  split_ifs
  · exact within.progress limit
  · rw [Within, first_childrenOf]
    exact within.below

/-- A search keeps different cells on every level. -/
theorem within_path (needsSort : Nat → Bool) (probes : List Nat) (depth : Nat) :
    Within layout depth
      (query.path epsilon family s layout needsSort probes depth).state := by
  induction depth with
  | zero => exact List.Subperm.refl _
  | succ depth ih => exact ih.descended _ _ _

theorem Tree.yields_descend (quiet : s.Quiet) (tree : Tree s layout)
    (dims : query.dim = layout.tuple.dim) {probes : List Nat}
    (levels : layout.tuple.heightOfRoot = 1 + probes.length) (needsSort : Nat → Bool) :
    Prog.Yields t s
      (query.descend epsilon family layout.tuple needsSort probes (query.rootCell s layout))
      (query.path epsilon family s layout needsSort probes probes.length) := by
  have height : layout.tuple.heightOfRoot - 1 = probes.length := by
    rw [levels, Nat.add_sub_cancel_left]
  rw [Query.descend, height]
  apply yields_range (query.path epsilon family s layout needsSort probes)
  intro depth inside
  have above : depth + 1 < layout.tuple.heightOfRoot := by
    rw [levels, add_comm 1]
    exact Nat.succ_lt_succ inside
  have probe : probes[depth]? = some (probes.getD depth 0) := by
    simp [inside]
  have cells := tree.cells (depth + 1) above
  rw [Nat.sub_sub, ← add_assoc, Nat.add_right_comm, ← Nat.sub_sub] at cells
  apply (yields_expect probe).bind
  apply (yields_expect cells).bind
  exact tree.yields_descendLevel quiet dims (within_path needsSort probes depth) above _ _ _

end

end

end VectorChord.Vchordrq
