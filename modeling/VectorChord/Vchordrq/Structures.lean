import VectorChord.Collections.Table
import VectorChord.Transition.Fallible
import VectorChord.Vchordrq.Built

/-!
# The levels that an index is built from

A build starts from levels of centroids, the lowest first; a vertex of a level lists the
positions of its children in the level below.  The levels come from clustering, one after
the other, or from a table in which every row names its parent.
-/

namespace VectorChord.Vchordrq.Structures

open Collections Transition List Fallible Table AList

/-- `Structure`, before its centroids are rotated and packed. -/
structure Level (V : Type) where
  centroids : List V
  children : List (List Nat)
  deriving DecidableEq, Repr

variable {V : Type} {levels : List (Level V)}

/-- The levels grow from leaves: a vertex above them has children, and every vertex has one
parent in the level above. -/
structure Stacked (levels : List (Level V)) : Prop where
  sized : ∀ level ∈ levels, level.centroids.length = level.children.length
  inhabited : ∀ level ∈ levels, level.children ≠ []
  lowest : ∀ level, levels[0]? = some level → ∀ cell ∈ level.children, cell = []
  shared : ∀ i lower upper, levels[i]? = some lower → levels[i + 1]? = some upper →
    upper.children.flatten.Perm (List.range lower.children.length) ∧
      ∀ cell ∈ upper.children, cell ≠ []

/-- All leaves have the same distance to one root. -/
structure Balanced (levels : List (Level V)) : Prop extends Stacked levels where
  top : ∃ level, levels.getLast? = some level ∧ level.children.length = 1

theorem Stacked.nil : Stacked ([] : List (Level V)) := by
  constructor <;> simp

/-- One more level. -/
theorem Stacked.snoc (stacked : Stacked levels) {upper : Level V}
    (sized : upper.centroids.length = upper.children.length) (inhabited : upper.children ≠ [])
    (lowest : levels = [] → ∀ cell ∈ upper.children, cell = [])
    (shared : ∀ lower, levels.getLast? = some lower →
      upper.children.flatten.Perm (List.range lower.children.length) ∧
        ∀ cell ∈ upper.children, cell ≠ []) : Stacked (levels ++ [upper]) where
  sized := by
    rw [forall_mem_append, forall_mem_singleton]
    exact ⟨stacked.sized, sized⟩
  inhabited := by
    rw [forall_mem_append, forall_mem_singleton]
    exact ⟨stacked.inhabited, inhabited⟩
  lowest := by
    cases levels with
    | nil =>
      rintro level ⟨⟩
      exact lowest rfl
    | cons head rest => exact stacked.lowest
  shared := by
    intro i lower next below above
    rw [getElem?_append] at below above
    split at above
    next inside =>
      rw [if_pos (Nat.lt_of_succ_lt inside)] at below
      exact stacked.shared i lower next below above
    next outside =>
      obtain ⟨last, rfl⟩ : i + 1 - levels.length = 0 ∧ upper = next := by
        simpa [getElem?_singleton, eq_comm] using above
      rw [if_pos (by omega)] at below
      apply shared
      rw [getLast?_eq_getElem?, ← below]
      congr 1
      omega

/-! ## Clustering -/

section
variable {D : Type} (dis : V → V → D) (infinity : D) (le : D → D → Bool) {centroids : List V}

/-- `k_means_lookup`: the last one of the nearest centroids. -/
def kMeansLookup (sample : V) (centroids : List V) : Nat :=
  (centroids.zipIdx.foldl (fun result (centroid, i) =>
    if le (dis sample centroid) result.1 then (dis sample centroid, i) else result)
    (infinity, 0)).2

/-- Give every vertex of a level to the centroid above that is nearest to it. -/
def assign (lower : Level V) (centroids : List V) : List (List Nat) :=
  lower.centroids.zipIdx.foldl (fun children (sample, i) =>
    children.modify (kMeansLookup dis infinity le sample centroids) (· ++ [i]))
    (List.replicate centroids.length [])

/-- Put the level of some centroids on the others; a centroid without vertices is left out. -/
def addLevel (result : List (Level V)) (centroids : List V) : List (Level V) :=
  match result.getLast? with
  | some lower =>
    let kept := (centroids.zip (assign dis infinity le lower centroids)).filter
      fun pair => !pair.2.isEmpty
    result ++ [⟨kept.map Prod.fst, kept.map Prod.snd⟩]
  | none => result ++ [⟨centroids, List.replicate centroids.length []⟩]

/-- `make_internal_build`; `cluster` is what clustering the last level, or the samples, into a
number of lists results in. -/
def makeInternalBuild (cluster : List (Level V) → Nat → List V) (lists : List Nat) :
    List (Level V) :=
  (lists.reverse ++ [1]).foldl (fun result w =>
    addLevel dis infinity le result (cluster result w)) []

theorem kMeansLookup_lt (sample : V) (nonempty : centroids ≠ []) :
    kMeansLookup dis infinity le sample centroids < centroids.length := by
  have start : ((infinity, 0) : D × Nat).2 < centroids.length := length_pos_iff.mpr nonempty
  have inside : ∀ item ∈ centroids.zipIdx, item.2 < centroids.length :=
    fun _ member => snd_lt_of_mem_zipIdx member
  rw [kMeansLookup]
  generalize (infinity, 0) = result at start
  generalize centroids.zipIdx = items at inside
  induction items generalizing result with
  | nil => exact start
  | cons item rest ih =>
    rw [forall_mem_cons] at inside
    apply ih _ _ inside.2
    dsimp only
    split
    · exact inside.1
    · exact start

theorem perm_flatten_modify {cells : List (List Nat)} {target : Nat} (i : Nat)
    (inside : target < cells.length) :
    (cells.modify target (· ++ [i])).flatten.Perm (cells.flatten ++ [i]) := by
  induction cells generalizing target with
  | nil => cases inside
  | cons cell rest ih =>
    cases target with
    | zero =>
      rw [modify_zero_cons, flatten_cons, flatten_cons, append_assoc, append_assoc]
      exact perm_append_comm.append_left cell
    | succ target =>
      rw [modify_succ_cons, flatten_cons, flatten_cons, append_assoc]
      exact (ih (Nat.lt_of_succ_lt_succ inside)).append_left cell

/-- Every vertex is given to one centroid. -/
theorem assign_spec (lower : Level V) (nonempty : centroids ≠ []) :
    (assign dis infinity le lower centroids).length = centroids.length ∧
      (assign dis infinity le lower centroids).flatten.Perm
        (List.range lower.centroids.length) := by
  have run : ∀ (items : List (V × Nat)) (cells : List (List Nat)),
      cells.length = centroids.length →
      let result := items.foldl (fun children (sample, i) =>
        children.modify (kMeansLookup dis infinity le sample centroids) (· ++ [i])) cells
      result.length = centroids.length ∧ result.flatten.Perm (cells.flatten ++
        items.map Prod.snd) := by
    intro items
    induction items with
    | nil => exact fun cells length => ⟨length, by simp⟩
    | cons item rest ih =>
      intro cells length
      have target := kMeansLookup_lt dis infinity le item.1 nonempty
      rw [← length] at target
      obtain ⟨size, order⟩ := ih _ ((length_modify _ _ _).trans length)
      refine ⟨size, order.trans ?_⟩
      have grown := (perm_flatten_modify item.2 target).append_right (rest.map Prod.snd)
      rw [append_assoc] at grown
      exact grown
  obtain ⟨size, order⟩ := run lower.centroids.zipIdx _ length_replicate
  refine ⟨size, order.trans ?_⟩
  simp [range_eq_range']

/-- The new level has a vertex for some of the centroids. -/
theorem addLevel_spec {result : List (Level V)} (stacked : Stacked result)
    (nonempty : centroids ≠ []) :
    ∃ level, addLevel dis infinity le result centroids = result ++ [level] ∧
      Stacked (result ++ [level]) ∧ level.children.length ≤ centroids.length := by
  cases last : result.getLast? with
  | none =>
    have empty := getLast?_eq_none_iff.mp last
    subst empty
    exact ⟨_, rfl, stacked.snoc (by simp) (by simpa using nonempty) (by simp) nofun, by simp⟩
  | some lower =>
    have present := mem_of_getLast? last
    obtain ⟨length, order⟩ := assign_spec dis infinity le lower nonempty
    rw [stacked.sized lower present] at order
    simp only [addLevel, last]
    generalize assign dis infinity le lower centroids = cells at length order
    have filtered : ((centroids.zip cells).filter fun pair => !pair.2.isEmpty).map Prod.snd =
        cells.filter fun cell => !cell.isEmpty := by
      have second := filter_map (f := Prod.snd) (l := centroids.zip cells)
        (p := fun cell : List Nat => !cell.isEmpty)
      rw [map_snd_zip (le_of_eq length)] at second
      exact second.symm
    rw [← flatten_filter_not_isEmpty, ← filtered] at order
    refine ⟨_, rfl, stacked.snoc (by simp) ?_ ?_ ?_, ?_⟩
    · intro none
      dsimp only at none
      rw [none] at order
      exact stacked.inhabited lower present
        (length_eq_zero_iff.mp (by simpa using order.symm.eq_nil))
    · rintro rfl
      cases last
    · intro other found
      cases last.symm.trans found
      refine ⟨order, fun cell member => ?_⟩
      rw [filtered] at member
      simpa using (mem_filter.mp member).2
    · rw [filtered, ← length]
      exact length_filter_le _ _

/-- Clustering gives a tree, whatever it results in. -/
theorem makeInternalBuild_balanced {cluster : List (Level V) → Nat → List V}
    (clusters : ∀ result w, (cluster result w).length = w) {lists : List Nat}
    (positive : ∀ w ∈ lists, 0 < w) :
    Balanced (makeInternalBuild dis infinity le cluster lists) := by
  have proper : ∀ result {w}, 0 < w → cluster result w ≠ [] := by
    intro result w many
    rw [← length_pos_iff, clusters]
    exact many
  have run : ∀ (rest : List Nat) (result : List (Level V)), (∀ w ∈ rest, 0 < w) →
      Stacked result → Stacked (rest.foldl (fun result w =>
        addLevel dis infinity le result (cluster result w)) result) := by
    intro rest
    induction rest with
    | nil => exact fun result _ stacked => stacked
    | cons w rest ih =>
      intro result many stacked
      rw [forall_mem_cons] at many
      obtain ⟨level, added, next, _⟩ := addLevel_spec dis infinity le stacked (proper result many.1)
      rw [foldl_cons, added]
      exact ih _ many.2 next
  have stacked := run lists.reverse [] (by simpa using positive) .nil
  rw [makeInternalBuild, foldl_append]
  obtain ⟨level, added, next, narrow⟩ :=
    addLevel_spec dis infinity le stacked (proper _ one_pos)
  rw [foldl_cons, foldl_nil, added]
  refine ⟨next, level, by simp, ?_⟩
  rw [clusters] at narrow
  have inhabited := length_pos_iff.mpr (next.inhabited level (by simp))
  omega

end

/-! ## Ranks -/

/-- Every vertex but the root has a parent, and its rank is one less. -/
structure Ranked {α : Type} [DecidableEq α] (ids : List α) (parent : α → Option α) (root : α)
    (rank : α → Nat) (height : Nat) : Prop where
  nodup : ids.Nodup
  root_mem : root ∈ ids
  root_iff : ∀ id ∈ ids, parent id = none ↔ id = root
  inside : ∀ id ∈ ids, ∀ p, parent id = some p → p ∈ ids
  leaf : ∀ id ∈ ids, (∀ kid ∈ ids, parent kid ≠ some id) → rank id = 1
  step : ∀ id ∈ ids, ∀ p, parent id = some p → rank p = rank id + 1
  root_rank : rank root = height
  rank_le : ∀ id ∈ ids, rank id ≤ height

theorem map_place {α : Type} {ids : List α} (nodup : ids.Nodup) {place : α → Nat}
    (placed : ∀ id ∈ ids, ids[place id]? = some id) :
    ids.map place = List.range ids.length := by
  apply ext_getElem
  · simp
  · intro k inside _
    rw [length_map] at inside
    obtain ⟨bound, same⟩ := List.getElem?_eq_some_iff.mp (placed ids[k] (getElem_mem inside))
    simpa using (nodup.getElem_inj_iff).mp same

namespace Ranked

variable {α : Type} [DecidableEq α] {ids : List α} {parent : α → Option α} {root : α}
  {rank : α → Nat} {height : Nat} (ranked : Ranked ids parent root rank height) {id : α}
  {place : α → Nat}
include ranked

theorem positive (member : id ∈ ids) : 0 < rank id := by
  by_cases leaf : ∀ kid ∈ ids, parent kid ≠ some id
  · rw [ranked.leaf id member leaf]
    exact one_pos
  · push Not at leaf
    obtain ⟨kid, inside, named⟩ := leaf
    rw [ranked.step kid inside id named]
    exact Nat.succ_pos _

theorem rank_lt (member : id ∈ ids) (other : id ≠ root) : rank id < height := by
  cases named : parent id with
  | none => exact absurd ((ranked.root_iff id member).mp named) other
  | some p =>
    have above := ranked.rank_le p (ranked.inside id member p named)
    rw [ranked.step id member p named] at above
    exact above

theorem filter_height : (ids.filter fun id => rank id = height) = [root] := by
  have only : (ids.filter fun id => rank id = height).Perm [root] := by
    rw [perm_ext_iff_of_nodup (ranked.nodup.filter _) (nodup_singleton _)]
    intro id
    simp only [mem_filter, decide_eq_true_eq, mem_singleton]
    constructor
    · rintro ⟨member, top⟩
      by_contra other
      exact (ranked.rank_lt member other).ne top
    · rintro rfl
      exact ⟨ranked.root_mem, ranked.root_rank⟩
  exact perm_singleton.mp only

/-- The children of one rank are the vertices of the rank below. -/
theorem perm_kids {h : Nat} (below : h < height) :
    ((ids.filter fun id => rank id = h + 1).flatMap fun id =>
      ids.filter fun kid => parent kid = some id).Perm (ids.filter fun id => rank id = h) := by
  rw [perm_ext_iff_of_nodup]
  · intro kid
    simp only [mem_flatMap, mem_filter, decide_eq_true_eq]
    constructor
    · rintro ⟨id, ⟨_, above⟩, member, named⟩
      have next := ranked.step kid member id named
      exact ⟨member, by omega⟩
    · rintro ⟨member, here⟩
      cases named : parent kid with
      | none =>
        rw [(ranked.root_iff kid member).mp named, ranked.root_rank] at here
        omega
      | some id =>
        have next := ranked.step kid member id named
        exact ⟨id, ⟨ranked.inside kid member id named, by omega⟩, member, rfl⟩
  · rw [nodup_flatMap]
    refine ⟨fun id _ => ranked.nodup.filter _, ?_⟩
    apply (ranked.nodup.filter _).imp
    intro id other different kid first second
    simp only [mem_filter, decide_eq_true_eq] at first second
    exact different (Option.some.inj (first.2.symm.trans second.2))
  · exact ranked.nodup.filter _

theorem exists_kid (member : id ∈ ids) (above : 1 < rank id) :
    ∃ kid ∈ ids, parent kid = some id := by
  by_contra none
  push Not at none
  rw [ranked.leaf id member none] at above
  exact absurd above (lt_irrefl 1)

/-- There are vertices of every rank. -/
theorem exists_rank {h : Nat} (positive : 0 < h) (below : h ≤ height) :
    ∃ id ∈ ids, rank id = h := by
  induction below using Nat.decreasingInduction with
  | self => exact ⟨root, ranked.root_mem, ranked.root_rank⟩
  | of_succ h _ ih =>
    obtain ⟨id, member, above⟩ := ih (Nat.succ_pos h)
    obtain ⟨kid, inside, named⟩ := ranked.exists_kid member (by omega)
    have next := ranked.step kid inside id named
    exact ⟨kid, inside, by omega⟩

/-- Each vertex has one of the ranks. -/
theorem perm_ranks : ((List.range height).flatMap fun i =>
    ids.filter fun id => rank id = i + 1).Perm ids := by
  rw [perm_ext_iff_of_nodup _ ranked.nodup]
  · intro id
    simp only [mem_flatMap, mem_range, mem_filter, decide_eq_true_eq]
    constructor
    · rintro ⟨_, _, member, _⟩
      exact member
    · intro member
      have first := ranked.positive member
      have last := ranked.rank_le id member
      exact ⟨rank id - 1, by omega, member, by omega⟩
  · rw [nodup_flatMap]
    refine ⟨fun _ _ => ranked.nodup.filter _, ?_⟩
    apply nodup_range.imp
    intro i j different id first second
    simp only [mem_filter, decide_eq_true_eq] at first second
    omega

/-- The vertices by their ranks, each with the places of its children, form a tree. -/
theorem balanced {levels : List (Level V)} (length : levels.length = height)
    (placed : ∀ id ∈ ids, (ids.filter fun other => rank other = rank id)[place id]? = some id)
    (each : ∀ i level, levels[i]? = some level →
      level.centroids.length = level.children.length ∧ level.children =
        (ids.filter fun id => rank id = i + 1).map fun id =>
          (ids.filter fun kid => parent kid = some id).map place) : Balanced levels where
  sized := by
    intro level member
    obtain ⟨i, found⟩ := List.getElem?_of_mem member
    exact (each i level found).1
  inhabited := by
    intro level member
    obtain ⟨i, found⟩ := List.getElem?_of_mem member
    have inside := (List.getElem?_eq_some_iff.mp found).1
    obtain ⟨id, present, here⟩ := ranked.exists_rank (Nat.succ_pos i) (length ▸ inside)
    rw [(each i level found).2]
    exact ne_nil_of_mem (mem_map_of_mem (mem_filter.mpr ⟨present, by simpa using here⟩))
  lowest := by
    intro level found cell member
    rw [(each 0 level found).2] at member
    obtain ⟨id, chosen, rfl⟩ := mem_map.mp member
    have bottom := decide_eq_true_eq.mp (mem_filter.mp chosen).2
    rw [map_eq_nil_iff, filter_eq_nil_iff]
    intro kid inside named
    have next := ranked.step kid inside id (decide_eq_true_eq.mp named)
    have positive := ranked.positive inside
    omega
  shared := by
    intro i lower upper below above
    have inside := (List.getElem?_eq_some_iff.mp above).1
    rw [(each i lower below).2, (each (i + 1) upper above).2, length_map, ← flatMap_def]
    constructor
    · have order := (ranked.perm_kids (length ▸ inside)).map place
      rw [map_flatMap, map_place (ranked.nodup.filter _)] at order
      · exact order
      · intro id member
        obtain ⟨present, here⟩ := mem_filter.mp member
        rw [← decide_eq_true_eq.mp here]
        exact placed id present
    · intro cell member empty
      obtain ⟨id, chosen, rfl⟩ := mem_map.mp member
      obtain ⟨present, here⟩ := mem_filter.mp chosen
      obtain ⟨kid, among, named⟩ := ranked.exists_kid present (by
        rw [decide_eq_true_eq.mp here]
        omega)
      rw [map_eq_nil_iff, filter_eq_nil_iff] at empty
      exact empty kid among (decide_eq_true_eq.mpr named)
  top := by
    have positive := ranked.positive ranked.root_mem
    rw [ranked.root_rank] at positive
    have inside : height - 1 < levels.length := by rw [length]; omega
    have found := getElem?_eq_getElem inside
    refine ⟨levels[height - 1], ?_, ?_⟩
    · rw [getLast?_eq_getElem?, length, found]
    · rw [(each _ _ found).2, length_map, Nat.sub_add_cancel positive, ranked.filter_height]
      rfl

/-- A child is found at its place among the vertices of the rank below. -/
theorem getElem?_place
    (placed : ∀ id ∈ ids, (ids.filter fun other => rank other = rank id)[place id]? = some id)
    {i : Nat} {kid : α} (here : rank id = i + 1)
    (member : kid ∈ ids.filter fun kid => parent kid = some id) :
    i ≠ 0 ∧ (ids.filter fun other => rank other = i)[place kid]? = some kid := by
  obtain ⟨present, named⟩ := mem_filter.mp member
  have next := ranked.step kid present id (decide_eq_true_eq.mp named)
  have positive := ranked.positive present
  obtain rfl : rank kid = i := by omega
  exact ⟨positive.ne', placed kid present⟩

end Ranked

/-! ## A table of centroids -/

/-- `i32`, the type of ids.  Heights and positions are numbers: as `u32` they overflow at the
earliest in a table with a row for every id. -/
abbrev I32 := { value : Int // -2 ^ 31 ≤ value ∧ value < 2 ^ 31 }

/-- A row of the table. -/
structure Row (V : Type) where
  id : Option I32
  parent : Option I32
  vector : Option V

/-- What is kept of a row under its id: the entries of `parents` and `vectors`. -/
structure Vertex (V : Type) where
  parent : Option I32
  vector : V

/-- Why a table is not accepted. -/
inductive ExternalError
  /-- Message "external build: id could not be NULL" -/
  | idIsNull
  /-- Message "external build: vector could not be NULL" -/
  | vectorIsNull
  /-- Message "external build: there are at least two lines have same id, id = {id}" -/
  | sameId (id : I32)
  /-- Message "external build: incorrect dimension, id = {id}" -/
  | incorrectDimension (id : I32)
  /-- Message "external build: parent does not exist, id = {id}, parent = {parent}" -/
  | parentDoesNotExist (id parent : I32)
  /-- Message "external build: two root, id = {root}, id = {id}" -/
  | twoRoot (root id : I32)
  /-- Message "external build: there are no root" -/
  | noRoot
  /-- Message "external build: detect a cycle, id = {u}" -/
  | cycle (id : I32)
  /-- Message "external build: two heights, id = {u}" -/
  | twoHeights (id : I32)
  /-- Message "not a connected graph" -/
  | notConnected
  /-- Message "external build: unexpected tree height, height = {}" -/
  | unexpectedHeight (height : Nat)
  /-- A key that a map has no entry for. -/
  | noEntry (id : I32)
  /-- More calls than vertices; this does not happen. -/
  | exhausted
  deriving DecidableEq, Repr

def expect {α : Type} (error : ExternalError) : Option α → Except ExternalError α
  | some value => .ok value
  | none => .error error

@[simp] theorem expect_eq_ok {α : Type} {error : ExternalError} {found : Option α} {value : α} :
    expect error found = .ok value ↔ found = some value := by
  cases found <;> simp [expect]

section
variable (dim : Nat) (dimOf : V → Nat) (mean : List V → V)

def readRow (table : Table I32 (Vertex V)) (row : Row V) :
    Except ExternalError (Table I32 (Vertex V)) := do
  let id ← expect .idIsNull row.id
  let vector ← expect .vectorIsNull row.vector
  if id ∈ table then throw (.sameId id)
  else if dim ≠ dimOf vector then throw (.incorrectDimension id)
  else pure (table.insert id ⟨row.parent, vector⟩)

/-- Read the table. -/
def readTable (rows : List (Row V)) : Except ExternalError (Table I32 (Vertex V)) :=
  rows.foldlM (readRow dim dimOf) ∅

def parentOf (table : Table I32 (Vertex V)) (id : I32) : Option I32 :=
  (table.lookup id).bind Vertex.parent

/-- The vectors, by their ids. -/
def values (table : Table I32 (Vertex V)) : List V :=
  table.inOrder.filterMap fun id => (table.lookup id).map Vertex.vector

abbrev Children := Table I32 (List I32)

/-- The children of every vertex, and the root. -/
def childrenOf (table : Table I32 (Vertex V)) :
    Except ExternalError (Children × I32) := do
  let (children, root) ← table.inOrder.foldlM (fun (children, root) id =>
    match parentOf table id, root with
    | some parent, root => do
      let kids ← expect (.parentDoesNotExist id parent) (children.lookup parent)
      pure (children.insert parent (kids ++ [id]), root)
    | none, some root => throw (.twoRoot root id)
    | none, none => pure (children, some id))
    (table.inOrder.foldl (fun children id => children.insert id []) ∅, none)
  match root with
  | some root => pure (children, root)
  | none => throw .noRoot

abbrev Heights := Table I32 (Option Nat)

abbrev Labels := Table I32 (Nat × Nat)

/-- `dfs_for_heights`. -/
def dfsForHeights (children : Children) :
    Nat → I32 → Fallible ExternalError Heights Unit
  | 0, _ => throw .exhausted
  | fuel + 1, u => do
    let heights ← get
    Fallible.require (u ∉ heights) (.cycle u)
    modify fun heights => heights.insert u none
    let kids ← Fallible.lift (expect (.noEntry u) (children.lookup u))
    let height ← kids.foldlM (fun height v => do
      dfsForHeights children fuel v
      let heights ← get
      let below ← Fallible.lift (expect (.noEntry v) (heights.lookup v).join)
      Fallible.require (∀ known, height = some known → known = below + 1) (.twoHeights u)
      pure (some (below + 1))) (none : Option Nat)
    modify fun heights => heights.insert u (some (height.getD 1))

/-- The level and the position of every vertex. -/
def labelsOf (table : Table I32 (Vertex V)) (heights : Heights) (height : Nat) :
    Except ExternalError (Labels) := do
  let (_, labels) ← table.inOrder.foldlM (fun (cursors, labels) id => do
    let height ← expect (.noEntry id) (heights.lookup id).join
    let cursor ← expect (.noEntry id) cursors[height]?
    pure (cursors.set height (cursor + 1), labels.insert id (height, cursor)))
    (List.replicate (1 + height) 0, (∅ : Labels))
  pure labels

/-- `extract`: the vertices of a height. -/
def extract (height : Nat) (labels : Labels) (table : Table I32 (Vertex V))
    (children : Children) : Except ExternalError (Level V) := do
  let chosen := labels.inOrder.filter fun id => (labels.lookup id).map Prod.fst = some height
  let cells ← chosen.mapM fun id => do
    let vertex ← expect (.noEntry id) (table.lookup id)
    let kids ← expect (.noEntry id) (children.lookup id)
    let positions ← kids.mapM fun kid => do
      let label ← expect (.noEntry kid) (labels.lookup kid)
      pure label.2
    pure (vertex.vector, positions)
  pure ⟨cells.map Prod.fst, cells.map Prod.snd⟩

/-- `make_external_build`. -/
def makeExternalBuild (rows : List (Row V)) : Except ExternalError (List (Level V)) := do
  let table ← readTable dim dimOf rows
  if 2 ≤ table.keys.length ∧ ∀ id ∈ table.keys, parentOf table id = none then
    -- more than one vertex and no edges: an implicit root
    pure [⟨values table, List.replicate table.keys.length []⟩,
      ⟨[mean (values table)], [List.range (table.keys.length % 2 ^ 32)]⟩]
  else do
    let (children, root) ← childrenOf table
    match (dfsForHeights children (table.keys.length + 1) root).step ∅ with
    | (.error error, _) => throw error
    | (.ok (), heights) =>
      if ∀ id ∈ heights.keys, (heights.lookup id).join.isSome then do
        let height ← expect (.noEntry root) (heights.lookup root).join
        if 1 ≤ height - 1 ∧ height - 1 ≤ 8 then do
          let labels ← labelsOf table heights height
          (List.range height).mapM fun i => extract (i + 1) labels table children
        else throw (.unexpectedHeight height)
      else throw .notConnected

variable {dim dimOf} {rows : List (Row V)} {table : Table I32 (Vertex V)} {children : Children}
  {heights heights' : Heights} {height : Nat} {labels : Labels} {root : I32}

/-! ### Children -/

/-- The children are those who name their parent, and all but the root do; some vertices are
still to come. -/
structure Linked (table : Table I32 (Vertex V)) (front : List I32)
    (children : Children) (root : Option I32) : Prop where
  kids : ∀ id kids, children.lookup id = some kids →
    id ∈ table ∧ kids = front.filter fun kid => parentOf table kid = some id
  inside : ∀ id ∈ front, ∀ parent, parentOf table id = some parent → parent ∈ table
  root_iff : ∀ id ∈ front, parentOf table id = none ↔ root = some id
  root_mem : ∀ id, root = some id → id ∈ front

variable {id : I32} {levels : List (Level V)}

theorem lookup_childless (ids : List I32) (children : Children) {kids : List I32}
    (found : (ids.foldl (fun children id => children.insert id []) children).lookup id =
      some kids) :
    children.lookup id = some kids ∨ id ∈ ids ∧ kids = [] := by
  induction ids generalizing children with
  | nil => exact .inl found
  | cons head rest ih =>
    cases ih _ found with
    | inl before =>
      rcases lookup_insert_iff.mp before with ⟨rfl, rfl⟩ | ⟨_, old⟩
      · exact .inr ⟨mem_cons_self, rfl⟩
      · exact .inl old
    | inr later => exact .inr ⟨mem_cons_of_mem _ later.1, later.2⟩

theorem Linked.child {front kids : List I32} {root : Option I32}
    (linked : Linked table front children root) {parent : I32}
    (named : parentOf table id = some parent) (listed : children.lookup parent = some kids)
    (fresh : id ∉ front) :
    Linked table (front ++ [id]) (children.insert parent (kids ++ [id])) root where
  kids := by
    intro other others found
    rcases lookup_insert_iff.mp found with ⟨rfl, rfl⟩ | ⟨different, old⟩
    · simp [linked.kids other kids listed, named]
    · simp [linked.kids other others old, named, Ne.symm different]
  inside := by
    rw [forall_mem_append, forall_mem_singleton, named]
    exact ⟨linked.inside, by rintro _ ⟨⟩; exact (linked.kids parent kids listed).1⟩
  root_iff := by
    rw [forall_mem_append, forall_mem_singleton, named]
    exact ⟨linked.root_iff, nofun, fun same => absurd (linked.root_mem id same) fresh⟩
  root_mem := fun other same => mem_append_left _ (linked.root_mem other same)

theorem Linked.orphan {front : List I32} (linked : Linked table front children none)
    (named : parentOf table id = none) (fresh : id ∉ front) :
    Linked table (front ++ [id]) children (some id) where
  kids := by
    intro other others found
    simp [linked.kids other others found, named]
  inside := by
    rw [forall_mem_append, forall_mem_singleton, named]
    exact ⟨linked.inside, by simp⟩
  root_iff := by
    rw [forall_mem_append, forall_mem_singleton, named]
    refine ⟨fun other old => ?_, fun _ => rfl, fun _ => rfl⟩
    rw [linked.root_iff other old]
    exact ⟨nofun, by rintro ⟨⟩; exact absurd old fresh⟩
  root_mem := by
    rintro other ⟨⟩
    exact mem_append_right _ mem_cons_self

theorem linked_of_childrenOf
    (found : childrenOf table = .ok (children, root)) :
    Linked table table.inOrder children (some root) := by
  obtain ⟨⟨children', root'⟩, loop, last⟩ := bind_eq_ok.mp found
  have all : ∃ front, table.inOrder = front ++ [] ∧ Linked table front children' root' := by
    apply foldlM_eq_ok (fun rest (state : Children × Option I32) =>
      ∃ front, table.inOrder = front ++ rest ∧ Linked table front state.1 state.2) _ _ loop
    · rintro id rest ⟨children, root⟩ next ⟨front, split, linked⟩ done
      have fresh : id ∉ front := by
        have nodup := table.nodup_inOrder
        rw [split, nodup_append] at nodup
        exact fun member => nodup.2.2 id member id mem_cons_self rfl
      refine ⟨front ++ [id], by simp [split], ?_⟩
      dsimp only at done linked
      split at done
      next parent named =>
        obtain ⟨kids, listed, done⟩ := bind_eq_ok.mp done
        cases done
        exact linked.child named (expect_eq_ok.mp listed) fresh
      next => cases done
      next named =>
        cases done
        exact linked.orphan named fresh
    · refine ⟨[], rfl, ?_, by simp, by simp, by simp⟩
      intro id kids found
      rcases lookup_childless table.inOrder ∅ found with impossible | ⟨member, rfl⟩
      · simp at impossible
      · exact ⟨mem_inOrder.mp member, rfl⟩
  obtain ⟨front, split, linked⟩ := all
  rw [append_nil] at split
  rw [split]
  dsimp only at last
  split at last
  next =>
    cases last
    exact linked
  next => cases last

/-! ### Heights -/

/-- The height of a vertex is one more than that of each child. -/
def Settled (children : Children) (heights : Heights) (id : I32) (height : Nat) :
    Prop :=
  ∃ kids, children.lookup id = some kids ∧ (kids = [] → height = 1) ∧
    ∀ kid ∈ kids, ∃ below, heights.lookup kid = some (some below) ∧ height = below + 1

/-- What a visit adds is settled. -/
structure Visited (children : Children) (heights heights' : Heights) : Prop where
  kept : ∀ id value, heights.lookup id = some value → heights'.lookup id = some value
  settled : ∀ id value, id ∉ heights → heights'.lookup id = some value →
    ∃ height, value = some height ∧ Settled children heights' id height

/-- The vertices that are not visited yet. -/
def unvisited (table : Table I32 (Vertex V)) (heights : Heights) : Nat :=
  (table.inOrder.filter fun id => id ∉ heights).length

theorem Settled.mono (settled : Settled children heights id height)
    (kept : ∀ id below, heights.lookup id = some (some below) →
      heights'.lookup id = some (some below)) : Settled children heights' id height := by
  obtain ⟨kids, listed, leaf, above⟩ := settled
  refine ⟨kids, listed, leaf, fun kid member => ?_⟩
  obtain ⟨below, found, next⟩ := above kid member
  exact ⟨below, kept kid below found, next⟩

theorem Visited.trans {heights'' : Heights}
    (first : Visited children heights heights') (second : Visited children heights' heights'') :
    Visited children heights heights'' where
  kept := fun id value found => second.kept id value (first.kept id value found)
  settled := by
    intro id value fresh found
    by_cases known : id ∈ heights'
    · obtain ⟨old, before⟩ := mem_iff_lookup.mp known
      cases (second.kept id old before).symm.trans found
      obtain ⟨height, same, settled⟩ := first.settled id value fresh before
      exact ⟨height, same, settled.mono fun id below => second.kept id (some below)⟩
    · exact second.settled id value known found

theorem unvisited_le
    (visited : Visited children heights heights') :
    unvisited table heights' ≤ unvisited table heights := by
  apply List.Sublist.length_le
  apply monotone_filter_right
  intro id fresh
  simp only [decide_eq_true_eq] at fresh ⊢
  intro member
  obtain ⟨value, found⟩ := mem_iff_lookup.mp member
  exact fresh (mem_iff_lookup.mpr ⟨value, visited.kept id value found⟩)

theorem unvisited_insert (member : id ∈ table) (fresh : id ∉ heights) :
    unvisited table (heights.insert id none) < unvisited table heights := by
  rw [unvisited, unvisited]
  have fewer : (table.inOrder.filter fun other => other ∉ heights.insert id none) =
      (table.inOrder.filter fun other => other ∉ heights).filter fun other => other ≠ id := by
    rw [filter_filter]
    simp [mem_insert]
  rw [fewer]
  apply length_filter_lt_length_iff_exists.mpr
  exact ⟨id, mem_filter.mpr ⟨mem_inOrder.mpr member, by simpa using fresh⟩, by simp⟩

/-- Enter the height of a vertex whose children have theirs. -/
theorem Visited.close {u : I32}
    (fresh : u ∉ heights) (visited : Visited children (heights.insert u none) heights')
    (settled : Settled children heights' u height) :
    Visited children heights (heights'.insert u (some height)) := by
  have open_ : heights'.lookup u = some none := visited.kept u none (lookup_insert _)
  have kept : ∀ id below, heights'.lookup id = some (some below) →
      (heights'.insert u (some height)).lookup id = some (some below) := by
    intro id below found
    rw [lookup_insert_ne, found]
    rintro rfl
    cases open_.symm.trans found
  constructor
  · intro id value found
    have different : id ≠ u := by
      rintro rfl
      exact fresh (mem_iff_lookup.mpr ⟨value, found⟩)
    rw [lookup_insert_ne different]
    apply visited.kept
    rw [lookup_insert_ne different, found]
  · intro id value absent found
    rcases lookup_insert_iff.mp found with ⟨rfl, rfl⟩ | ⟨different, before⟩
    · exact ⟨height, rfl, settled.mono kept⟩
    · obtain ⟨own, same, done⟩ := visited.settled id value (by simp [different, absent]) before
      exact ⟨own, same, done.mono kept⟩

theorem Visited.refl (children : Children) (heights : Heights) :
    Visited children heights heights where
  kept := fun _ _ found => found
  settled := fun _ value fresh found => absurd (mem_iff_lookup.mpr ⟨value, found⟩) fresh

/-- A visit settles the vertex and those below it.  As long as no more calls are open than there
are vertices, it does not run out of them. -/
theorem wp_dfsForHeights
    (keys : ∀ id ∈ children, id ∈ table) (fuel : Nat) (u : I32)
    (enough : unvisited table heights < fuel) :
    Fallible.wp (dfsForHeights children fuel u) (fun _ heights' =>
      Visited children heights heights' ∧ ∃ height, heights'.lookup u = some (some height))
      (fun error _ => error ≠ .exhausted) heights := by
  induction fuel generalizing u heights with
  | zero => cases enough
  | succ fuel ih =>
    rw [dfsForHeights, wp_bind_get, wp_require_bind]
    refine ⟨fun fresh => ?_, fun _ => nofun⟩
    cases listed : children.lookup u with
    | none => exact nofun
    | some kids =>
      have less : unvisited table (heights.insert u none) < fuel := by
        have := unvisited_insert (keys u (mem_iff_lookup.mpr ⟨kids, listed⟩)) fresh
        omega
      -- the children before the next one have the height that is known so far
      apply wp_seq (wp_foldlM (fun rest (height : Option Nat) heights' =>
        Visited children (heights.insert u none) heights' ∧ ∃ front, kids = front ++ rest ∧
          (front = [] → height = none) ∧ ∀ kid ∈ front, ∃ below,
            heights'.lookup kid = some (some below) ∧ height = some (below + 1))
        ?_ (fun _ _ known => known) ⟨.refl _ _, [], rfl, fun _ => rfl, by simp⟩)
      · rintro height heights' ⟨visited, front, split, start, above⟩
        rw [append_nil] at split
        subst split
        have settled : Settled children heights' u (height.getD 1) := by
          refine ⟨kids, listed, fun none => by rw [start none]; rfl, ?_⟩
          intro kid member
          obtain ⟨below, found, same⟩ := above kid member
          exact ⟨below, found, by rw [same]; rfl⟩
        exact ⟨visited.close fresh settled, _, lookup_insert _⟩
      · rintro v rest height heights' ⟨visited, front, split, start, above⟩
        apply wp_seq (ih v (lt_of_le_of_lt (unvisited_le visited) less))
        rintro _ heights'' ⟨more, below, found⟩
        rw [wp_bind_get, wp_bind, wp_lift, found, Option.join_some]
        dsimp only [expect]
        rw [wp_require_bind]
        refine ⟨fun agree => ⟨visited.trans more, front ++ [v], by simp [split], by simp, ?_⟩,
          fun _ => nofun⟩
        intro kid member
        cases mem_append.mp member with
        | inl old =>
          obtain ⟨own, before, same⟩ := above kid old
          exact ⟨own, more.kept kid _ before, congrArg some (agree _ same).symm⟩
        | inr new =>
          rw [mem_singleton.mp new]
          exact ⟨below, found, rfl⟩

theorem wp_dfs_root
    (linked : Linked table table.inOrder children (some root)) :
    Fallible.wp (dfsForHeights children (table.keys.length + 1) root)
      (fun _ heights => Visited children ∅ heights) (fun error _ => error ≠ .exhausted) ∅ := by
  have keys : ∀ id ∈ children, id ∈ table := by
    intro id member
    obtain ⟨kids, listed⟩ := mem_iff_lookup.mp member
    exact (linked.kids id kids listed).1
  have enough : unvisited table ∅ < table.keys.length + 1 := by
    have fewer : unvisited table ∅ ≤ table.inOrder.length := length_filter_le _ _
    rw [inOrder, length_insertionSort] at fewer
    omega
  exact wp_mono (wp_dfsForHeights keys _ root enough) (fun _ _ both => both.1)
    fun _ _ failed => failed

/-! ### Labels -/

/-- The height of a vertex. -/
def rank (heights : Heights) (id : I32) : Nat := (heights.lookup id).join.getD 0

/-- The label of a vertex is its height and its position among those of the same height; some
vertices are still to come. -/
structure Labelled (heights : Heights) (height : Nat) (front : List I32)
    (labels : Labels) : Prop where
  known : ∀ id, id ∈ labels ↔ id ∈ front
  placed : ∀ id label, labels.lookup id = some label → label.1 ≤ height ∧
    heights.lookup id = some (some label.1) ∧
    (front.filter fun other => rank heights other = label.1)[label.2]? = some id

theorem labelled_of_labelsOf
    (found : labelsOf table heights height = .ok labels) :
    Labelled heights height table.inOrder labels := by
  obtain ⟨⟨cursors, _⟩, loop, last⟩ := bind_eq_ok.mp found
  cases last
  obtain ⟨front, split, labelled, _⟩ := foldlM_eq_ok
    (fun rest (state : List Nat × Labels) => ∃ front,
      table.inOrder = front ++ rest ∧ Labelled heights height front state.2 ∧
        state.1.length = 1 + height ∧ ∀ h cursor, state.1[h]? = some cursor →
          cursor = (front.filter fun other => rank heights other = h).length)
    (by
      rintro id rest ⟨cursors, labels⟩ next ⟨front, split, labelled, length, counts⟩ done
      obtain ⟨own, high, done⟩ := bind_eq_ok.mp done
      obtain ⟨cursor, counted, done⟩ := bind_eq_ok.mp done
      cases done
      rw [expect_eq_ok] at high counted
      dsimp only at labelled length counts counted
      have inside := (List.getElem?_eq_some_iff.mp counted).1
      have here : rank heights id = own := by rw [rank, high]; rfl
      refine ⟨front ++ [id], by simp [split], ⟨?_, ?_⟩, by simp [length], ?_⟩
      · intro other
        simp [labelled.known other, or_comm]
      · intro other label listed
        rw [filter_append]
        rcases lookup_insert_iff.mp listed with ⟨rfl, rfl⟩ | ⟨_, old⟩
        · refine ⟨by omega, Option.join_eq_some_iff.mp high, ?_⟩
          rw [counts own cursor counted, getElem?_append_right le_rfl]
          simp [here]
        · obtain ⟨bound, known, position⟩ := labelled.placed other label old
          refine ⟨bound, known, ?_⟩
          rw [List.getElem?_append_left (List.getElem?_eq_some_iff.mp position).1, position]
      · intro h count entry
        by_cases same : own = h
        · subst same
          rw [getElem?_set_self inside] at entry
          cases entry
          simp [here, counts own cursor counted]
        · rw [getElem?_set_ne same] at entry
          simp [here, same, counts h count entry])
    ⟨[], rfl, ⟨by simp, by simp⟩, by simp, by simp [getElem?_replicate]⟩ loop
  rw [split, append_nil]
  exact labelled

theorem map_eq_map {α β γ : Type} {f : α → γ} {g : β → γ} {xs : List α} {ys : List β}
    (related : List.Forall₂ (fun x y => g y = f x) xs ys) : ys.map g = xs.map f := by
  induction related with
  | nil => rfl
  | cons head _ ih => rw [map_cons, map_cons, head, ih]

/-- The position of a vertex in its level. -/
def position (labels : Labels) (id : I32) : Nat :=
  ((labels.lookup id).map Prod.snd).getD 0

theorem Labelled.lookup (labelled : Labelled heights height table.inOrder labels) (id : I32)
    (member : id ∈ table.inOrder) : labels.lookup id = some (rank heights id, position labels id) ∧
      heights.lookup id = some (some (rank heights id)) ∧ rank heights id ≤ height ∧
      (table.inOrder.filter fun other =>
        rank heights other = rank heights id)[position labels id]? = some id := by
  obtain ⟨label, listed⟩ := mem_iff_lookup.mp ((labelled.known id).mpr member)
  obtain ⟨bound, high, placed⟩ := labelled.placed id label listed
  have own : rank heights id = label.1 := by rw [rank, high]; rfl
  have place : position labels id = label.2 := by rw [position, listed]; rfl
  rw [own, place]
  exact ⟨listed, high, bound, placed⟩

/-- What `extract` takes from the tables. -/
theorem extract_spec {h : Nat} {level : Level V}
    (linked : Linked table table.inOrder children (some root))
    (labelled : Labelled heights height table.inOrder labels)
    (extracted : extract h labels table children = .ok level) :
    level.children = (table.inOrder.filter fun id => rank heights id = h).map
      (fun id => (table.inOrder.filter fun kid => parentOf table kid = some id).map
        (position labels)) ∧
    level.centroids.map some = (table.inOrder.filter fun id => rank heights id = h).map
      fun id => (table.lookup id).map Vertex.vector := by
  obtain ⟨cells, loop, last⟩ := bind_eq_ok.mp extracted
  cases last
  have chosen : (labels.inOrder.filter fun id => (labels.lookup id).map Prod.fst = some h) =
      table.inOrder.filter fun id => rank heights id = h := by
    have same : labels.inOrder = table.inOrder :=
      inOrder_eq fun id => (labelled.known id).trans mem_inOrder
    rw [same]
    apply filter_congr
    intro id member
    simp [(labelled.lookup id member).1]
  rw [chosen] at loop
  have each := (mapM_eq_ok loop).imp fun id pair done => show
      pair.2 = (table.inOrder.filter fun kid => parentOf table kid = some id).map
        (position labels) ∧ some pair.1 = (table.lookup id).map Vertex.vector by
    obtain ⟨vertex, stored, done⟩ := bind_eq_ok.mp done
    obtain ⟨kids, listed, done⟩ := bind_eq_ok.mp done
    obtain ⟨positions, mapped, done⟩ := bind_eq_ok.mp done
    cases done
    rw [expect_eq_ok] at stored listed
    rw [← (linked.kids id kids listed).2, stored]
    refine ⟨eq_map_of_mapM_eq_ok ?_ mapped, rfl⟩
    intro kid result done
    obtain ⟨label, known, done⟩ := bind_eq_ok.mp done
    cases done
    rw [position, expect_eq_ok.mp known]
    rfl
  rw [map_map]
  exact ⟨map_eq_map (each.imp fun _ _ both => both.1), map_eq_map (each.imp fun _ _ both => both.2)⟩

/-! ### Levels -/

theorem ranked_of_visited (linked : Linked table table.inOrder children (some root))
    (visited : Visited children ∅ heights)
    (labelled : Labelled heights height table.inOrder labels)
    (top : (heights.lookup root).join = some height) :
    Ranked table.inOrder (parentOf table) root (rank heights) height := by
  have settled : ∀ id ∈ table.inOrder,
      ((∀ kid ∈ table.inOrder, parentOf table kid ≠ some id) → rank heights id = 1) ∧
      ∀ kid ∈ table.inOrder, parentOf table kid = some id →
        rank heights id = rank heights kid + 1 := by
    intro id member
    obtain ⟨own, same, kids, listed, leaf, above⟩ := visited.settled id _ (notMem_empty id)
      (labelled.lookup id member).2.1
    cases same
    obtain ⟨_, rfl⟩ := linked.kids id kids listed
    constructor
    · intro none
      apply leaf
      simpa [filter_eq_nil_iff] using none
    · intro kid inside named
      obtain ⟨below, found, next⟩ := above kid (by simpa [inside] using named)
      rw [next, rank, found]
      rfl
  exact {
    nodup := table.nodup_inOrder
    root_mem := linked.root_mem root rfl
    root_iff := by
      intro id member
      rw [linked.root_iff id member, Option.some_inj]
      exact eq_comm
    inside := fun id member p named => mem_inOrder.mpr (linked.inside id member p named)
    leaf := fun id member => (settled id member).1
    step := fun id member p named =>
      (settled p (mem_inOrder.mpr (linked.inside id member p named))).2 id member named
    root_rank := by rw [rank, top]; rfl
    rank_le := fun id member => (labelled.lookup id member).2.2.1 }

/-- What the vertices of the levels stand for. -/
inductive Denotes (table : Table I32 (Vertex V)) (levels : List (Level V)) : Prop
  /-- Without edges, all rows are below a root that is not in the table. -/
  | implicit (root : V) (orphans : ∀ id ∈ table, parentOf table id = none)
    (same : levels = [⟨values table, List.replicate table.keys.length []⟩,
      ⟨[root], [List.range table.keys.length]⟩])
  /-- The vertices are the rows, and the children of a vertex the rows whose parent it is. -/
  | rows (ids : List (List I32)) (length : ids.length = levels.length)
    (once : ids.flatten.Perm table.inOrder)
    (each : ∀ (i : Nat) (level : Level V) (here : List I32), levels[i]? = some level →
      ids[i]? = some here →
      level.centroids.map some = here.map (fun id => (table.lookup id).map Vertex.vector) ∧
      level.children.map (fun cell => cell.map fun position =>
        if i = 0 then none else (ids.getD (i - 1) [])[position]?) =
          here.map fun id => (table.inOrder.filter fun kid =>
            parentOf table kid = some id).map some)

theorem balanced_implicit (table : Table I32 (Vertex V)) (many : 2 ≤ table.keys.length) (root : V) :
    Balanced [⟨values table, List.replicate table.keys.length []⟩,
      ⟨[root], [List.range table.keys.length]⟩] := by
  have sized : (values table).length = table.keys.length := by
    rw [values, filterMap_length_eq_length.mpr]
    · exact length_insertionSort _ _
    · intro id member
      obtain ⟨vertex, found⟩ := mem_iff_lookup.mp (mem_inOrder.mp member)
      rw [found]
      rfl
  have lower : Stacked ([] ++ [(⟨values table, replicate table.keys.length []⟩ : Level V)]) :=
    Stacked.nil.snoc (by simp [sized])
      (ne_nil_of_length_pos (by rw [length_replicate]; omega))
      (fun _ cell member => eq_of_mem_replicate member) nofun
  refine ⟨lower.snoc rfl (by simp) nofun ?_, _, rfl, rfl⟩
  rintro _ ⟨⟩
  refine ⟨by simp, fun cell member => ?_⟩
  rw [mem_singleton.mp member]
  simp only [ne_eq, range_eq_nil]
  omega

theorem denotes_of_extract (linked : Linked table table.inOrder children (some root))
    (labelled : Labelled heights height table.inOrder labels)
    (ranked : Ranked table.inOrder (parentOf table) root (rank heights) height)
    (extracted : (List.range height).mapM (fun i => extract (i + 1) labels table children) =
      .ok levels) : Balanced levels ∧ Denotes table levels := by
  have all := forall₂_iff_get.mp (mapM_eq_ok extracted)
  have length : levels.length = height := all.1.symm.trans length_range
  have done : ∀ i level, levels[i]? = some level →
      extract (i + 1) labels table children = .ok level := by
    intro i level found
    obtain ⟨inside, rfl⟩ := List.getElem?_eq_some_iff.mp found
    simpa using all.2 i (all.1 ▸ inside) inside
  have each := fun i level found => extract_spec linked labelled (done i level found)
  have placed := fun id member => (labelled.lookup id member).2.2.2
  constructor
  · apply ranked.balanced length placed
    intro i level found
    obtain ⟨cells, vectors⟩ := each i level found
    have sizes := congrArg List.length vectors
    rw [length_map, length_map] at sizes
    exact ⟨by rw [cells, length_map, sizes], cells⟩
  · apply Denotes.rows ((range height).map fun i =>
      table.inOrder.filter fun id => rank heights id = i + 1)
    · rw [length_map, length_range, length]
    · rw [← flatMap_def]
      exact ranked.perm_ranks
    · intro i level here found named
      obtain ⟨inside, rfl⟩ := List.getElem?_eq_some_iff.mp named
      simp only [length_map, length_range] at inside
      simp only [getElem_map, getElem_range]
      obtain ⟨cells, vectors⟩ := each i level found
      refine ⟨vectors, ?_⟩
      rw [cells, map_map]
      apply map_congr_left
      intro id member
      rw [Function.comp_apply, map_map]
      apply map_congr_left
      intro kid child
      obtain ⟨above, place⟩ := ranked.getElem?_place placed
        (decide_eq_true_eq.mp (mem_filter.mp member).2) child
      obtain ⟨j, rfl⟩ := Nat.exists_eq_succ_of_ne_zero above
      have bound : j < height := Nat.lt_of_succ_lt inside
      simp [bound, place]

/-- Every row adds an id. -/
theorem length_readRow {next : Table I32 (Vertex V)} {row : Row V}
    (read : readRow dim dimOf table row = .ok next) :
    next.keys.length = table.keys.length + 1 := by
  obtain ⟨id, _, read⟩ := bind_eq_ok.mp read
  obtain ⟨vector, _, read⟩ := bind_eq_ok.mp read
  obtain ⟨fresh, read⟩ := guard_eq_ok.mp read
  obtain ⟨_, read⟩ := guard_eq_ok.mp read
  cases read
  rw [AList.keys, entries_insert_of_notMem fresh]
  rfl

theorem length_readTable (read : readTable dim dimOf rows = .ok table) :
    table.keys.length = rows.length := by
  apply foldlM_eq_ok (fun rest (table : Table I32 (Vertex V)) =>
    table.keys.length + rest.length = rows.length) _ (Nat.zero_add _) read
  intro row rest table next sum read
  rw [length_readRow read, Nat.add_right_comm]
  exact sum

/-- What an accepted table becomes. -/
theorem makeExternalBuild_spec (small : rows.length < 2 ^ 32)
    (accepted : makeExternalBuild dim dimOf mean rows = .ok levels) :
    Balanced levels ∧ ∃ table, readTable dim dimOf rows = .ok table ∧ Denotes table levels := by
  obtain ⟨table, read, rest⟩ := bind_eq_ok.mp accepted
  split at rest
  next implicit =>
    cases rest
    rw [length_readTable read, Nat.mod_eq_of_lt small, ← length_readTable read]
    exact ⟨balanced_implicit table implicit.1 _, table, read,
      .implicit _ (fun id member => implicit.2 id (mem_keys.mp member)) rfl⟩
  next =>
    obtain ⟨⟨children, root⟩, linking, rest⟩ := bind_eq_ok.mp rest
    have linked := linked_of_childrenOf linking
    dsimp only at rest
    split at rest
    next => cases rest
    next heights visit =>
      have visited := (wp_of_step_ok visit).mp (wp_dfs_root linked)
      obtain ⟨_, rest⟩ := require_eq_ok.mp rest
      obtain ⟨height, top, rest⟩ := bind_eq_ok.mp rest
      obtain ⟨_, rest⟩ := require_eq_ok.mp rest
      obtain ⟨labels, labelling, rest⟩ := bind_eq_ok.mp rest
      have labelled := labelled_of_labelsOf labelling
      have ranked := ranked_of_visited linked visited labelled (expect_eq_ok.mp top)
      have facts := denotes_of_extract linked labelled ranked rest
      exact ⟨facts.1, table, read, facts.2⟩

end

/-- A table without parents is accepted. -/
theorem readTable_orphans {V : Type} {dim : Nat} (dimOf : V → Nat) (vector : V)
    (fits : dim = dimOf vector) {ids : List I32} (nodup : ids.Nodup) :
    ∃ table, readTable dim dimOf (ids.map fun id => ⟨some id, none, some vector⟩) = .ok table ∧
      ∀ id, parentOf table id = none := by
  have run : ∀ (table : Table I32 (Vertex V)), (∀ id ∈ ids, id ∉ table) →
      (∀ id, parentOf table id = none) → ∃ table',
        (ids.map fun id => (⟨some id, none, some vector⟩ : Row V)).foldlM
          (readRow dim dimOf) table = .ok table' ∧ ∀ id, parentOf table' id = none := by
    induction ids with
    | nil => exact fun table _ orphans => ⟨table, rfl, orphans⟩
    | cons id rest ih =>
      intro table fresh orphans
      rw [nodup_cons] at nodup
      rw [forall_mem_cons] at fresh
      have read : readRow dim dimOf table ⟨some id, none, some vector⟩ =
          .ok (table.insert id ⟨none, vector⟩) :=
        guard_eq_ok.mpr ⟨fresh.1, guard_eq_ok.mpr ⟨not_not.mpr fits, rfl⟩⟩
      rw [map_cons, foldlM_cons, read]
      apply ih nodup.2
      · intro other member
        rw [mem_insert, not_or]
        exact ⟨ne_of_mem_of_not_mem member nodup.1, fresh.2 other member⟩
      · intro other
        by_cases same : other = id
        · rw [same, parentOf, lookup_insert]
          rfl
        · rw [parentOf, lookup_insert_ne same]
          exact orphans other
  exact run ∅ (by simp) (by simp [parentOf])

/-- A row for every id and no parents: the number of rows does not fit into a `u32`, and the
implicit root has no children. -/
theorem makeExternalBuild_everyId :
    ∃ (rows : List (Row Unit)) (levels : List (Level Unit)), rows.length = 2 ^ 32 ∧
      makeExternalBuild 1 (fun _ => 1) (fun _ => ()) rows = .ok levels ∧ ¬ Balanced levels := by
  have card : Fintype.card (Set.Ico (-2 ^ 31 : Int) (2 ^ 31)) = 2 ^ 32 := by simp
  obtain ⟨ids, nodup, length⟩ : ∃ ids : List I32, ids.Nodup ∧ ids.length = 2 ^ 32 :=
    ⟨(Finset.univ : Finset (Set.Ico (-2 ^ 31 : Int) (2 ^ 31))).toList, Finset.nodup_toList _,
      (Finset.length_toList _).trans card⟩
  obtain ⟨table, read, orphans⟩ := readTable_orphans (fun _ : Unit => 1) () rfl nodup
  have many : table.keys.length = 2 ^ 32 := by
    rw [length_readTable read, length_map, length]
  refine ⟨_, [⟨values table, List.replicate table.keys.length []⟩, ⟨[()], [[]]⟩],
    (length_map fun id => ⟨some id, none, some ()⟩).trans length, ?_, fun balanced => ?_⟩
  · rw [makeExternalBuild, read]
    change (if _ then _ else _) = _
    rw [if_pos ⟨by rw [many]; norm_num, fun id _ => orphans id⟩, many, Nat.mod_self]
    rfl
  · exact (balanced.shared 0 _ _ rfl rfl).2 [] mem_cons_self rfl

/-- Every accepted table of fewer than `2 ^ 32` rows, and every outcome of clustering, becomes a
tree whose leaves are at one distance to its root; the tree of a table has the rows as vertices,
each below its parent.  The visit of a table has as many calls as it needs. -/
theorem levels_balanced :
    (∀ {V : Type} (dim : Nat) (dimOf : V → Nat) (mean : List V → V) (rows : List (Row V))
      (levels : List (Level V)), rows.length < 2 ^ 32 →
      makeExternalBuild dim dimOf mean rows = .ok levels →
      Balanced levels ∧ ∃ table, readTable dim dimOf rows = .ok table ∧ Denotes table levels) ∧
    (∀ {V : Type} (table : Table I32 (Vertex V)) (children : Children) (root : I32),
      childrenOf table = .ok (children, root) →
      ((dfsForHeights children (table.keys.length + 1) root).step ∅).1 ≠ .error .exhausted) ∧
    ∀ {V D : Type} (dis : V → V → D) (infinity : D) (le : D → D → Bool)
      (cluster : List (Level V) → Nat → List V) (lists : List Nat),
      (∀ result w, (cluster result w).length = w) → (∀ w ∈ lists, 0 < w) →
      Balanced (makeInternalBuild dis infinity le cluster lists) := by
  refine ⟨?_, ?_, ?_⟩
  · intro V dim dimOf mean rows levels small accepted
    exact makeExternalBuild_spec mean small accepted
  · intro V table children root linking failed
    exact (wp_of_step_error (Prod.ext failed rfl)).mp
      (wp_dfs_root (linked_of_childrenOf linking)) rfl
  · intro V D dis infinity le cluster lists clusters positive
    exact makeInternalBuild_balanced dis infinity le clusters positive

/-- Two rows below a third one, and two clusters of which one stays empty. -/
theorem levels_balanced_threeRows :
    Balanced [(⟨[[2], [3]], [[], []]⟩ : Level (List Nat)), ⟨[[1]], [[0, 1]]⟩] ∧
    Balanced (makeInternalBuild (fun x y : Nat => x - y) 0 (fun x y => x ≤ y)
      (fun _ w => List.replicate w 7) [3, 2]) := by
  obtain ⟨external, _, inner⟩ := levels_balanced
  exact ⟨(external 1 List.length (fun _ => []) [⟨some ⟨7, by decide⟩, none, some [1]⟩,
      ⟨some ⟨9, by decide⟩, some ⟨7, by decide⟩, some [3]⟩,
      ⟨some ⟨8, by decide⟩, some ⟨7, by decide⟩, some [2]⟩] _ (by decide) rfl).1,
    inner _ _ _ _ _ (fun _ _ => length_replicate) (by decide)⟩

end VectorChord.Vchordrq.Structures
