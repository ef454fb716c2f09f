import VectorChord.Vchordrq.BuildParts
import VectorChord.Vchordrq.Descent

/-!
# The tree that `build` writes

For a well-layered structure, `build` writes the tree of the structure: a cell for every
vertex, with the cells of its children below it.
-/

namespace VectorChord.Vchordrq

open Collections Index Paged Rabitq List TapeWriter
open Prog hiding pure
open Collections.Blocks (blocks)

variable {kind : VectorKind} {c c' : Content (RPage kind)} {s : RStore kind} {first dim : Nat}

/-! ## The layout of an index -/

/-- The pages of a tape. -/
def tapeAt (s : RStore kind) (first : Nat) : List Nat :=
  walk (nextAt (pageAt s)) u32Max iterations first

theorem Walkable.tapeAt_eq {ids : List Nat} (tape : Walkable s ids first) :
    tapeAt s first = ids := by
  have bound := tape.length_lt
  rw [tapeAt, ← tape.head]
  exact tape.linked.walk_eq (fun member => tape.ne_u32Max member rfl) (by omega)

/-- The layout of an index, as its pages say. -/
def layoutOf (s : RStore kind) (tuple : MetaTuple) : Layout where
  tuple := tuple
  children := fun first =>
    (blocks [] (h1Slices s (tapeAt s first))).flatMap fun block => block.1.branches block.2
  jump := fun first => (((pageAt s first).get 1).bind Tuple.asJump).getD ⟨[], 0, 0, 0, 0, 0⟩
  tapes := fun first tape =>
    let jump := (((pageAt s first).get 1).bind Tuple.asJump).getD ⟨[], 0, 0, 0, 0, 0⟩
    match tape with
    | .directory => tapeAt s jump.directoryFirst
    | .frozen => tapeAt s jump.frozenFirst
    | .appendable => tapeAt s jump.appendableFirst

theorem Node.children_eq {branches : List (Branch Nat)} (node : Node s dim first branches)
    (tuple : MetaTuple) : (layoutOf s tuple).children first = branches := by
  obtain ⟨ids, tape, _, _, rfl⟩ := node.tape
  simp only [layoutOf, tape.tapeAt_eq]

theorem Leaf.inLayout {jump : JumpTuple} {tapes : TapeKind → List Nat}
    (leaf : Leaf s dim first jump tapes) (tuple : MetaTuple) :
    Leaf s dim first ((layoutOf s tuple).jump first) ((layoutOf s tuple).tapes first) := by
  have found : (layoutOf s tuple).jump first = jump := by
    simp [layoutOf, leaf.found, Tuple.asJump]
  have same : (layoutOf s tuple).tapes first = tapes := by
    funext tape
    cases tape <;> simp [layoutOf, leaf.found, Tuple.asJump, leaf.directory.tapeAt_eq,
      leaf.frozen.tapeAt_eq, leaf.appendable.tapeAt_eq]
  rw [found, same]
  exact leaf

/-! ## Floors -/

/-- A leaf begins on the page. -/
def IsLeaf (c : Content (RPage kind)) (dim first : Nat) : Prop :=
  ∃ jump tapes, Stands c fun s => Leaf s dim first jump tapes

/-- A cell begins on the page, whose children are those at the given positions of the floor
below. -/
def IsNode (c : Content (RPage kind)) (dim : Nat) (lower positions : List Nat) (first : Nat) :
    Prop :=
  ∃ branches : List (Branch Nat), (Stands c fun s => Node s dim first branches) ∧
    positions.map (fun position => lower[position]?) = branches.map (fun b => some b.extra) ∧
    ∀ branch ∈ branches, Stands c fun s => Centroid s dim branch.prefetch branch.head

/-- The cells of some levels, the highest first, begin on the given pages. -/
inductive Floors (c : Content (RPage kind)) (dim : Nat) :
    List (Structure kind) → List (List Nat) → Prop
  | leaves {level firsts} : List.Forall₂ (fun _ => IsLeaf c dim) level.children firsts →
      firsts.Nodup → Floors c dim [level] [firsts]
  | nodes {level levels firsts lower rest} : Floors c dim levels (lower :: rest) →
      List.Forall₂ (IsNode c dim lower) level.children firsts → firsts.Nodup →
        Floors c dim (level :: levels) (firsts :: lower :: rest)

theorem IsLeaf.later (leaf : IsLeaf c dim first) (agrees : Agrees c c') : IsLeaf c' dim first := by
  obtain ⟨jump, tapes, stands⟩ := leaf
  exact ⟨jump, tapes, stands.later agrees⟩

variable {lower : List Nat} {levels : List (Structure kind)} {floors : List (List Nat)}

variable {positions : List Nat}

theorem IsNode.later (node : IsNode c dim lower positions first) (agrees : Agrees c c') :
    IsNode c' dim lower positions first := by
  obtain ⟨branches, stands, extras, centroids⟩ := node
  exact ⟨branches, stands.later agrees, extras,
    fun branch member => (centroids branch member).later agrees⟩

theorem Floors.later (built : Floors c dim levels floors) (agrees : Agrees c c') :
    Floors c' dim levels floors := by
  induction built with
  | leaves cells nodup => exact .leaves (cells.imp fun _ _ leaf => leaf.later agrees) nodup
  | nodes _ cells nodup ih => exact .nodes ih (cells.imp fun _ _ node => node.later agrees) nodup

/-- The children of the vertices of a level are the vertices of the level below, in some
order; the highest level comes first. -/
def Layered : List (Structure kind) → Prop
  | [] => True
  | [_] => True
  | level :: lower :: rest =>
    level.children.flatten.Perm (List.range lower.children.length) ∧ Layered (lower :: rest)

/-- What a search needs of the cells of one level. -/
structure Floor (s : RStore kind) (dim : Nat) (layout : Layout) (last : Prop) (count : Nat)
    (firsts : List Nat) : Prop where
  length : firsts.length = count
  nodup : firsts.Nodup
  leaves : last → ∀ first ∈ firsts, Leaf s dim first (layout.jump first) (layout.tapes first)
  nodes : ¬last → ∀ first ∈ firsts, Node s dim first (layout.children first) ∧
    ∀ branch ∈ layout.children first, Centroid s dim branch.prefetch branch.head

variable {children : List (List Nat)} {firsts : List Nat} {tuple : MetaTuple}

/-- The children of all cells of a floor. -/
theorem below_floor (agrees : Agrees c s.content) (tuple : MetaTuple)
    (cells : List.Forall₂ (IsNode c dim lower) children firsts) :
    (firsts.flatMap (layoutOf s tuple).below).map some =
      children.flatten.map fun position => lower[position]? := by
  induction cells with
  | nil => rfl
  | @cons positions first children firsts node _ ih =>
    obtain ⟨branches, stands, extras, _⟩ := node
    rw [flatMap_cons, map_append, ih, flatten_cons, map_append, extras,
      Layout.below, (stands s agrees).children_eq, map_map]
    rfl

/-- Each cell of the floor below is the child of one cell. -/
theorem perm_below (agrees : Agrees c s.content) (tuple : MetaTuple)
    (cells : List.Forall₂ (IsNode c dim lower) children firsts)
    (layered : children.flatten.Perm (List.range lower.length)) :
    (firsts.flatMap (layoutOf s tuple).below).Perm lower := by
  have all : (range lower.length).map (fun position => lower[position]?) =
      lower.map some := by
    apply ext_getElem
    · simp
    · intro i inside _
      have here : i < lower.length := by simpa using inside
      simp [here]
  have order := layered.map fun position => lower[position]?
  rw [← below_floor agrees tuple cells, all] at order
  exact (map_perm_map_iff (Option.some_injective _)).mp order

theorem Floor.perm {count : Nat} {layout : Layout} {last : Prop} {firsts' : List Nat}
    (floor : Floor s dim layout last count firsts) (order : firsts'.Perm firsts) :
    Floor s dim layout last count firsts' where
  length := order.length_eq.trans floor.length
  nodup := order.nodup_iff.mpr floor.nodup
  leaves := fun final first member => floor.leaves final first (order.mem_iff.mp member)
  nodes := fun inner first member => floor.nodes inner first (order.mem_iff.mp member)

theorem exists_of_mem_right {α β : Type} {R : α → β → Prop} {xs : List α} {ys : List β}
    (related : List.Forall₂ R xs ys) {y : β} (member : y ∈ ys) : ∃ x ∈ xs, R x y := by
  induction related with
  | nil => cases member
  | cons head _ ih =>
    cases mem_cons.mp member with
    | inl same => exact ⟨_, mem_cons_self, same ▸ head⟩
    | inr later =>
      obtain ⟨x, listed, holds⟩ := ih later
      exact ⟨x, mem_cons_of_mem _ listed, holds⟩

theorem Floors.exists_cons (built : Floors c dim levels floors) :
    ∃ level rest, levels = level :: rest := by
  cases built with
  | leaves => exact ⟨_, _, rfl⟩
  | nodes => exact ⟨_, _, rfl⟩

/-- Going down from the cells of the highest floor, one meets the cells of every floor. -/
theorem Floors.floor (built : Floors c dim levels floors) (agrees : Agrees c s.content)
    (tuple : MetaTuple) (layered : Layered levels) {start : List Nat}
    (top : start.Perm (floors.headD [])) {depth : Nat} (inside : depth < levels.length) :
    ∃ count, (levels.map fun level => level.children.length)[depth]? = some count ∧
      Floor s dim (layoutOf s tuple) (depth + 1 = levels.length) count
        ((layoutOf s tuple).levelsFrom start depth) := by
  induction built generalizing start depth with
  | @leaves level firsts cells nodup =>
    obtain rfl := Nat.lt_one_iff.mp inside
    refine ⟨level.children.length, rfl, ?_⟩
    refine Floor.perm ⟨cells.length_eq.symm, nodup, fun _ first member => ?_, absurd rfl⟩ top
    obtain ⟨_, _, jump, tapes, stands⟩ := exists_of_mem_right cells member
    exact (stands s agrees).inLayout tuple
  | @nodes level levels firsts lower rest below cells nodup ih =>
    obtain ⟨next, others, rfl⟩ := below.exists_cons
    cases depth with
    | zero =>
      refine ⟨level.children.length, rfl, ?_⟩
      refine Floor.perm ⟨cells.length_eq.symm, nodup, nofun, fun _ first member => ?_⟩ top
      obtain ⟨_, _, branches, stands, _, centroids⟩ := exists_of_mem_right cells member
      have node := stands s agrees
      rw [node.children_eq]
      exact ⟨node, fun branch listed => centroids branch listed s agrees⟩
    | succ depth =>
      obtain ⟨count, found, floor⟩ := ih layered.2 .rfl (Nat.succ_pos others.length)
      have size : lower.length = next.children.length :=
        floor.length.trans (Option.some.inj found).symm
      have below : (start.flatMap (layoutOf s tuple).below).Perm lower := by
        refine (top.flatMap_right _).trans (perm_below agrees tuple cells ?_)
        rw [size]
        exact layered.1
      rw [Layout.levelsFrom_succ]
      obtain ⟨count, found, floor⟩ := ih layered.2 below (Nat.lt_of_succ_lt_succ inside)
      refine ⟨count, found, ?_⟩
      simpa using floor

/-- The floors and the meta page make a tree. -/
theorem tree_of_floors (built : Floors c tuple.dim levels floors) (agrees : Agrees c s.content)
    (layered : Layered levels) (top : floors.headD [] = [tuple.first])
    (height : tuple.heightOfRoot = levels.length)
    (cells : tuple.cells = (levels.map fun level => level.children.length).reverse)
    (found : (pageAt s 0).get 1 = some (.metaTuple tuple)) (inside : 0 < s.pages.length)
    (root : Centroid s tuple.dim tuple.centroidPrefetch tuple.centroidHead) :
    Tree s (layoutOf s tuple) := by
  have start : [tuple.first].Perm (floors.headD []) := by rw [top]
  have floor := fun depth (below : depth < levels.length) =>
    built.floor agrees tuple layered start below
  obtain ⟨level, others, split⟩ := built.exists_cons
  have positive : 0 < levels.length := by simp [split]
  exact {
    size := agrees.size
    inside := inside
    found := found
    height := height ▸ positive
    cells := by
      intro depth below
      rw [layoutOf, height] at below
      obtain ⟨count, here, floor⟩ := floor depth below
      have index : levels.length - 1 - (levels.length - 1 - depth) = depth := by omega
      have size : ((layoutOf s tuple).level depth).length = count := floor.length
      rw [size, ← here]
      change tuple.cells[tuple.heightOfRoot - 1 - depth]? = _
      rw [cells, height, getElem?_reverse (by simp; omega), length_map, index]
    root := root
    nodes := by
      intro depth above first member
      rw [layoutOf, height] at above
      obtain ⟨count, _, floor⟩ := floor depth (Nat.lt_of_succ_lt above)
      exact (floor.nodes above.ne first member).1
    centroids := by
      intro depth above first member
      rw [layoutOf, height] at above
      obtain ⟨count, _, floor⟩ := floor depth (Nat.lt_of_succ_lt above)
      exact (floor.nodes above.ne first member).2
    leaves := by
      intro first member
      obtain ⟨count, _, floor⟩ := floor (levels.length - 1) (Nat.sub_lt positive one_pos)
      rw [Layout.leaves, layoutOf, height] at member
      exact floor.leaves (Nat.sub_add_cancel positive) first member
    nodup := by
      intro depth below
      rw [layoutOf, height] at below
      obtain ⟨count, _, floor⟩ := floor depth below
      exact floor.nodup }

/-! ## Writing the floors -/

/-- Centroids of the given dimension are stored under the keys. -/
def Keys (c : Content (RPage kind)) (dim : Nat) (keys : List (List Nat × Nat)) : Prop :=
  ∀ key ∈ keys, (Stands c fun s => Centroid s dim key.1 key.2) ∧
    key.1.length = count kind dim

theorem Keys.later {keys : List (List Nat × Nat)} (stored : Keys c dim keys)
    (agrees : Agrees c c') :
    Keys c' dim keys :=
  fun key member => ⟨(stored key member).1.later agrees, (stored key member).2⟩

/-- The centroids of the cells of a level are on the tape, under the keys. -/
def KeyedLevel (c : Content (RPage kind)) (ids : List Nat) (level : Structure kind)
    (keys : List (List Nat × Nat)) : Prop :=
  List.Forall₂ (fun j key => ∃ vector, level.centroids[j]? = some vector ∧
    Keyed c ids vector key) (List.range level.children.length) keys

section
variable {ids ids' : List Nat} {tape tape' : TapeWriter kind} {dim : Nat}
  {structures : List (Structure kind)} {pointers : List (List (List Nat × Nat))}

theorem KeyedLevel.grow {level : Structure kind} {keys : List (List Nat × Nat)}
    {added : List (Tuple kind)} (keyed : KeyedLevel c ids level keys)
    (grows : Grows c c' ids ids' added) (writes : Writes c tape ids)
    (writes' : Writes c' tape' ids') : KeyedLevel c' ids' level keys := by
  apply keyed.imp
  rintro j key ⟨vector, found, here⟩
  exact ⟨vector, found, here.grow grows writes writes'⟩

theorem keys_of_keyedLevels
    (dims : ∀ level ∈ structures, ∀ vector ∈ level.centroids, vector.dim = dim)
    (keyed : List.Forall₂ (KeyedLevel c ids) structures pointers) (writes : Writes c tape ids)
    (nonzero : ∀ id ∈ ids, id ≠ 0) : Keys c dim pointers.flatten := by
  intro key member
  obtain ⟨keys, listed, inner⟩ := mem_flatten.mp member
  obtain ⟨level, present, all⟩ := exists_of_mem_right keyed listed
  obtain ⟨j, _, vector, found, here⟩ := exists_of_mem_right all inner
  rw [← dims level present vector (mem_of_getElem? found)]
  exact ⟨here.stands writes nonzero, here.length⟩

/-- Every centroid is read back with its key. -/
def ReadBack (c : Content (RPage kind)) (structures : List (Structure kind))
    (pointers : List (List (List Nat × Nat))) : Prop :=
  List.Forall₂ (fun level keys => List.Forall₂ (fun j key => ∃ vector : Vector kind,
    level.centroids[j]? = some vector ∧ key.1.length = count kind vector.dim ∧
      ∀ (t : Nat) (s : RStore kind), s.content = c → s.Quiet →
        Prog.Yields t s (centroidsRead key.1 key.2 []) (vector.elements, vector.metadata))
    (List.range level.children.length) keys) structures pointers

theorem readBack_of_keyed (keyed : List.Forall₂ (KeyedLevel c ids) structures pointers)
    (writes : Writes c tape ids) (nonzero : ∀ id ∈ ids, id ≠ 0) (agrees : Agrees c c') :
    ReadBack c' structures pointers := by
  apply keyed.imp
  intro level keys here
  apply here.imp
  rintro j key ⟨vector, found, stored⟩
  refine ⟨vector, found, stored.length, ?_⟩
  rintro t s rfl quiet
  obtain ⟨inside, whole⟩ := stored.kept writes nonzero s agrees
  exact yields_centroidsRead quiet inside whole

end

/-- Write cells one after the other. -/
theorem wlp_placeAll {ι : Type} (items : List ι) (place : ι → RProg kind Nat)
    (Q : Content (RPage kind) → ι → Nat → Prop) (small : c.pages.length ≤ u32Max)
    (later : ∀ c' c'' item first, Q c' item first → Agrees c' c'' → Q c'' item first)
    (places : ∀ c' item, item ∈ items → c.pages <+: c'.pages → Agrees c c' →
      (place item).wlp (fun first c'' => Placed c' c'' first ∧ Q c'' item first) c') :
    (items.foldlM (fun firsts item => (place item).bind fun first => pure (firsts ++ [first]))
      []).wlp (fun firsts c' => c.pages <+: c'.pages ∧ Agrees c c' ∧ firsts.Nodup ∧
        List.Forall₂ (Q c') items firsts) c := by
  apply wlp_foldlM fun rest (firsts : List Nat) c' => c.pages <+: c'.pages ∧ Agrees c c' ∧
    (firsts.Nodup ∧ ∀ first ∈ firsts, first < c'.pages.length) ∧
      ∃ front, items = front ++ rest ∧ List.Forall₂ (Q c') front firsts
  · rintro item rest firsts c' ⟨grown, agrees, ⟨nodup, inside⟩, front, split, cells⟩
    apply wlp_then (places c' item (by simp [split]) grown agrees)
    rintro first c'' ⟨placed, here⟩
    have more := Agrees.of_grown placed.grown placed.size
    refine ⟨grown.trans placed.grown, agrees.trans more, ⟨?_, ?_⟩, front ++ [item],
      by simp [split], ?_⟩
    · rw [nodup_append]
      refine ⟨nodup, nodup_singleton _, fun old member new last same => ?_⟩
      rw [mem_singleton.mp last] at same
      exact absurd (inside old member) (by have := placed.behind; omega)
    · intro old member
      cases mem_append.mp member with
      | inl before => exact (inside old before).trans_le more.length
      | inr new =>
        rw [mem_singleton.mp new]
        exact placed.inside
    · exact rel_append (cells.imp fun _ _ holds => later c' c'' _ _ holds more)
        (.cons here .nil)
  · rintro firsts c' ⟨grown, agrees, ⟨nodup, _⟩, front, split, cells⟩
    rw [append_nil] at split
    rw [split]
    exact ⟨grown, agrees, nodup, cells⟩
  · exact ⟨prefix_rfl, .of_grown prefix_rfl small, ⟨nodup_nil, nofun⟩, [], rfl, .nil⟩

/-- What is known of the level below, the first one of the levels that are written. -/
def Beneath (c : Content (RPage kind)) (dim : Nat) (levels : List (Structure kind)) :
    Option (Below kind) → Prop
  | none => levels = []
  | some below => (∃ rest, Floors c dim levels (below.firsts :: rest)) ∧
      Keys c dim below.pointers ∧ ∀ vector ∈ below.centroids, vector.dim = dim

theorem forall₂_of_mapM {α β : Type} {f : α → Option β} {xs : List α} {ys : List β}
    (all : xs.mapM f = some ys) : List.Forall₂ (fun x y => f x = some y) xs ys := by
  induction xs generalizing ys with
  | nil =>
    cases all
    exact .nil
  | cons x xs ih =>
    rw [mapM_cons] at all
    obtain ⟨y, head, rest⟩ := Option.bind_eq_some_iff.mp all
    obtain ⟨ys, tail, same⟩ := Option.bind_eq_some_iff.mp rest
    cases same
    exact .cons head (ih tail)

variable {below : Below kind}

/-- A child is taken from the three lists. -/
theorem Below.child_eq {position : Nat} {child : Vector kind × (List Nat × Nat) × Nat}
    (found : below.child position = some child) : child.1 ∈ below.centroids ∧
      child.2.1 ∈ below.pointers ∧ below.firsts[position]? = some child.2.2 := by
  obtain ⟨vector, centroid, rest⟩ := Option.bind_eq_some_iff.mp found
  obtain ⟨pointer, key, rest⟩ := Option.bind_eq_some_iff.mp rest
  obtain ⟨first, page, same⟩ := Option.bind_eq_some_iff.mp rest
  cases same
  exact ⟨mem_of_getElem? centroid, mem_of_getElem? key, page⟩

theorem Below.firsts_eq {children : List (Vector kind × (List Nat × Nat) × Nat)}
    (listed : List.Forall₂ (fun position child => below.child position = some child) positions
      children) :
    positions.map (fun position => below.firsts[position]?) =
      children.map fun child => some child.2.2 := by
  induction listed with
  | nil => rfl
  | cons found _ ih => rw [map_cons, map_cons, ih, (Below.child_eq found).2.2]

/-- Structures of the given dimension, the lowest first: every vertex but the only one of the
highest level is the child of one vertex of the level above. -/
structure WellLayered (dim : Nat) (structures : List (Structure kind)) : Prop where
  dims : ∀ level ∈ structures, ∀ vector ∈ level.centroids, vector.dim = dim
  top : ∀ level, structures.getLast? = some level → level.children.length = 1
  layered : Layered structures.reverse

/-- The floors and the meta page, once it is written. -/
theorem tree_of_beneath {structures : List (Structure kind)}
    (beneath : Beneath c tuple.dim structures.reverse (some below))
    (layered : WellLayered tuple.dim structures)
    (pointer : below.pointers[0]? = some (tuple.centroidPrefetch, tuple.centroidHead))
    (first : below.firsts[0]? = some tuple.first) (height : tuple.heightOfRoot = structures.length)
    (cells : tuple.cells = structures.map fun level => level.children.length)
    (nonempty : 0 < c.pages.length) (size : s.pages.length ≤ u32Max) {special : Opaque}
    (pages : s.pages = c.pages.set 0 ⟨special, [some (.metaTuple tuple)]⟩) :
    Tree s (layoutOf s tuple) := by
  obtain ⟨⟨rest, floors⟩, keys, _⟩ := beneath
  have length : s.pages.length = c.pages.length := by rw [pages, length_set]
  have agrees : Agrees c s.content := .of_set size pages
  have top : below.firsts = [tuple.first] := by
    obtain ⟨level, others, split⟩ := floors.exists_cons
    obtain ⟨count, here, floor⟩ := floors.floor agrees tuple layered.layered .rfl
      (show 0 < structures.reverse.length by simp [split])
    have last : structures.getLast? = some level := by
      rw [getLast?_eq_head?_reverse, split]
      rfl
    have one : below.firsts.length = 1 := by
      have size : below.firsts.length = count := floor.length
      rw [split] at here
      rw [size, ← layered.top level last]
      exact (Option.some.inj here).symm
    obtain ⟨only, same⟩ := length_eq_one_iff.mp one
    rw [same] at first ⊢
    rw [Option.some.inj first]
  apply tree_of_floors floors agrees layered.layered top
  · rw [height, length_reverse]
  · rw [cells, map_reverse, reverse_reverse]
  · simp [pageAt, pages, nonempty, Page.get]
  · rw [length]
    exact nonempty
  · exact (keys _ (mem_of_getElem? pointer)).1 s agrees

section
variable (op : Operator) [PageSpace (Tuple op.kind)] {c : Content (RPage op.kind)}
  {options : Options} {level : Structure op.kind} {pointers : List (List Nat × Nat)}
  {tape : TapeWriter op.kind} {ids : List Nat} {structures : List (Structure op.kind)}

theorem wlp_placeCell_node (nonempty : 0 < c.pages.length) {below : Below op.kind}
    (keys : Keys c options.dim below.pointers)
    (dims : ∀ vector ∈ below.centroids, vector.dim = options.dim) (item : List Nat × Nat) :
    (placeCell op options level pointers (some below) item).wlp (fun first c' =>
      Placed c c' first ∧ IsNode c' options.dim below.firsts item.1 first) c := by
  simp only [placeCell, bind_eq, wlp_bind, wlp_expect]
  intro centroid _ children all
  have listed := forall₂_of_mapM all
  have fits : ∀ child ∈ children, child.1.dim = options.dim ∧
      child.2.1.1.length = count op.kind options.dim := by
    intro child member
    obtain ⟨position, _, found⟩ := exists_of_mem_right listed member
    obtain ⟨vector, key, _⟩ := Below.child_eq found
    exact ⟨dims _ vector, (keys _ key).2⟩
  apply wlp_mono (wlp_buildNode op nonempty options centroid fits)
  rintro first c' ⟨placed, branches, node, pointers⟩
  refine ⟨placed, branches, node, ?_, ?_⟩
  · have extras := congrArg (map fun pointer => some pointer.2.2) pointers
    rw [map_map, map_map] at extras
    exact (Below.firsts_eq listed).trans extras.symm
  · intro branch member
    have pointer : branch.pointer ∈ branches.map Branch.pointer := mem_map_of_mem member
    rw [pointers] at pointer
    obtain ⟨child, kept, same⟩ := mem_map.mp pointer
    obtain ⟨position, _, found⟩ := exists_of_mem_right listed kept
    have key := (keys _ (Below.child_eq found).2.1).1
    have prefetch : child.2.1.1 = branch.prefetch := congrArg Prod.fst same
    have head : child.2.1.2 = branch.head := congrArg (fun pointer => pointer.2.1) same
    rw [prefetch, head] at key
    exact key.later (.of_grown placed.grown placed.size)

theorem wlp_buildLevel (nonempty : 0 < c.pages.length) (small : c.pages.length ≤ u32Max)
    {levels : List (Structure op.kind)} {below : Option (Below op.kind)}
    (beneath : Beneath c options.dim levels below) (keys : Keys c options.dim pointers)
    (dims : ∀ vector ∈ level.centroids, vector.dim = options.dim) :
    (buildLevel op options level pointers below).wlp (fun below' c' => c.pages <+: c'.pages ∧
      Agrees c c' ∧ Beneath c' options.dim (level :: levels) (some below')) c := by
  rw [buildLevel, bind_eq]
  have indexed : level.children.zipIdx.map Prod.fst = level.children := by simp
  cases below with
  | none =>
    cases beneath
    apply wlp_then (wlp_placeAll _ _ (fun c' _ first => IsLeaf c' options.dim first) small
      (fun _ _ _ _ leaf agrees => leaf.later agrees) fun c' item _ grown _ => by
        simp only [placeCell, bind_eq, wlp_bind, wlp_expect]
        intro pointer _
        exact wlp_buildLeaf op (nonempty.trans_le grown.length_le) options.dim pointer)
    rintro firsts c' ⟨grown, agrees, nodup, cells⟩
    refine ⟨grown, agrees, ⟨[], .leaves ?_ nodup⟩, keys.later agrees, dims⟩
    rw [← indexed, forall₂_map_left_iff]
    exact cells
  | some below =>
    obtain ⟨⟨rest, floors⟩, lowerKeys, lowerDims⟩ := beneath
    apply wlp_then (wlp_placeAll _ _
      (fun c' item first => IsNode c' options.dim below.firsts item.1 first) small
      (fun c' _ item first (node : IsNode c' options.dim below.firsts item.1 first) agrees =>
        node.later agrees) fun c' item _ grown agrees =>
        wlp_placeCell_node op (nonempty.trans_le grown.length_le) (lowerKeys.later agrees)
          lowerDims item)
    rintro firsts c' ⟨grown, agrees, nodup, cells⟩
    refine ⟨grown, agrees, ⟨_, .nodes (floors.later agrees) ?_ nodup⟩, keys.later agrees, dims⟩
    rw [← indexed, forall₂_map_left_iff]
    exact cells

/-! ## Writing the centroids -/

theorem wlp_buildCentroids (writes : Writes c tape ids) (level : Structure op.kind) :
    (buildCentroids op level tape).wlp (fun result c' => ∃ ids' added,
      Writes c' result.2 ids' ∧ Grows c c' ids ids' added ∧
        KeyedLevel c' ids' level result.1) c := by
  apply wlp_foldlM fun rest (state : List (List Nat × Nat) × TapeWriter op.kind) c' =>
    ∃ ids' added front, range level.children.length = front ++ rest ∧
      Writes c' state.2 ids' ∧ Grows c c' ids ids' added ∧
      List.Forall₂ (fun j key => ∃ vector, level.centroids[j]? = some vector ∧
        Keyed c' ids' vector key) front state.1
  · rintro j rest ⟨pointers, tape'⟩ c' ⟨ids', added, front, split, writes', grows, keyed⟩
    simp only [bind_eq, wlp_bind, wlp_expect]
    intro vector found
    apply wlp_mono (wlp_buildCentroid op writes' vector)
    rintro ⟨pointer, tape''⟩ c'' ⟨ids'', added', writes'', grows', here⟩
    refine ⟨ids'', _, front ++ [j], by simp [split], writes'', grows.trans grows', ?_⟩
    refine rel_append (keyed.imp ?_) (.cons ⟨vector, found, here⟩ .nil)
    rintro i key ⟨other, there, stored⟩
    exact ⟨other, there, stored.grow grows' writes' writes''⟩
  · rintro state c' ⟨ids', added, front, split, writes', grows, keyed⟩
    rw [append_nil] at split
    rw [← split] at keyed
    exact ⟨ids', added, writes', grows, keyed⟩
  · exact ⟨ids, [], [], rfl, writes, Grows.refl c ids, .nil⟩

/-- The centroids of all levels. -/
theorem wlp_buildAllCentroids (writes : Writes c tape ids) (structures : List (Structure op.kind)) :
    (structures.foldlM (fun (pointers, tape) level => do
      let (keys, tape) ← buildCentroids op level tape
      pure (pointers ++ [keys], tape))
      (([], tape) : List (List (List Nat × Nat)) × TapeWriter op.kind)).wlp
      (fun result c' => ∃ ids' added, Writes c' result.2 ids' ∧ Grows c c' ids ids' added ∧
        List.Forall₂ (KeyedLevel c' ids') structures result.1) c := by
  apply wlp_foldlM fun rest
      (state : List (List (List Nat × Nat)) × TapeWriter op.kind) c' =>
    ∃ ids' added front, structures = front ++ rest ∧ Writes c' state.2 ids' ∧
      Grows c c' ids ids' added ∧ List.Forall₂ (KeyedLevel c' ids') front state.1
  · rintro level rest ⟨pointers, tape'⟩ c' ⟨ids', added, front, split, writes', grows, keyed⟩
    apply wlp_then (wlp_buildCentroids op writes' level)
    rintro ⟨keys, tape''⟩ c'' ⟨ids'', added', writes'', grows', here⟩
    refine ⟨ids'', _, front ++ [level], by simp [split], writes'', grows.trans grows', ?_⟩
    exact rel_append (keyed.imp fun _ _ stored => stored.grow grows' writes' writes'')
      (.cons here .nil)
  · rintro state c' ⟨ids', added, front, split, writes', grows, keyed⟩
    rw [append_nil] at split
    exact ⟨ids', added, writes', grows, split ▸ keyed⟩
  · exact ⟨ids, [], [], rfl, writes, Grows.refl c ids, .nil⟩

omit [PageSpace (Tuple op.kind)] in
/-- The vector tapes are behind everything else. -/
theorem wlp_buildVectors (small : c.pages.length ≤ u32Max) (degree : Nat) :
    (buildVectors op degree).wlp (fun _ c' => c.pages <+: c'.pages ∧
      c'.pages.length ≤ u32Max) c := by
  apply wlp_foldlM fun _ (_ : List Nat) c' => c.pages <+: c'.pages ∧
    c'.pages.length ≤ u32Max
  · rintro _ rest firsts c' ⟨grown, _⟩
    apply wlp_then (wlp_create true)
    rintro ⟨tape, _⟩ c'' ⟨_, pages, writes⟩
    apply wlp_bind.mpr (wlp_close _)
    exact ⟨grown.trans ⟨_, pages.symm⟩, writes.size⟩
  · exact fun _ _ known => known
  · exact ⟨prefix_rfl, small⟩

/-! ## Build -/

/-- The cells of all levels, the lowest first. -/
theorem wlp_buildLevels (nonempty : 0 < c.pages.length) (small : c.pages.length ≤ u32Max)
    {pointers : List (List (List Nat × Nat))} (lengths : pointers.length = structures.length)
    (keys : Keys c options.dim pointers.flatten)
    (dims : ∀ level ∈ structures, ∀ vector ∈ level.centroids, vector.dim = options.dim) :
    ((structures.zip pointers).foldlM (fun below (level, keys) => do
      let below ← buildLevel op options level keys below
      pure (some below)) none).wlp (fun below c' => c.pages <+: c'.pages ∧ Agrees c c' ∧
        Beneath c' options.dim structures.reverse below) c := by
  apply wlp_foldlM fun rest (below : Option (Below op.kind)) c' => c.pages <+: c'.pages ∧
    Agrees c c' ∧ ∃ front, structures.zip pointers = front ++ rest ∧
      Beneath c' options.dim (front.map Prod.fst).reverse below
  · rintro ⟨level, levelKeys⟩ rest below c' ⟨grown, agrees, front, split, beneath⟩
    have member : (level, levelKeys) ∈ structures.zip pointers := by simp [split]
    have here : Keys c' options.dim levelKeys := by
      intro key listed
      exact keys.later agrees key
        (mem_flatten.mpr ⟨levelKeys, (of_mem_zip member).2, listed⟩)
    apply wlp_then (wlp_buildLevel op (nonempty.trans_le grown.length_le) agrees.size beneath
      here (dims level (of_mem_zip member).1))
    rintro below' c'' ⟨grown', agrees', beneath'⟩
    refine ⟨grown.trans grown', agrees.trans agrees', front ++ [(level, levelKeys)],
      by simp [split], ?_⟩
    simpa using beneath'
  · rintro below c' ⟨grown, agrees, front, split, beneath⟩
    rw [append_nil] at split
    rw [← split, map_fst_zip lengths.ge] at beneath
    exact ⟨grown, agrees, beneath⟩
  · exact ⟨prefix_rfl, .of_grown prefix_rfl small, [], rfl, rfl⟩

/-- What `build` writes. -/
theorem wlp_buildKeys
    (dims : ∀ level ∈ structures, ∀ vector ∈ level.centroids, vector.dim = options.dim)
    (empty : c.pages = []) :
    (buildKeys op options structures).wlp (fun pointers c' => ReadBack c' structures pointers ∧
      ∃ tuple : MetaTuple, tuple.dim = options.dim ∧
        tuple.isResidual = options.residualQuantization ∧
        tuple.heightOfRoot = structures.length ∧
        tuple.cells = structures.map (fun level => level.children.length) ∧
        (WellLayered options.dim structures → ∀ s : RStore op.kind, s.content = c' →
          Tree s (layoutOf s tuple))) c := by
  simp only [buildKeys, bind_eq]
  apply wlp_then (wlp_create false)
  rintro ⟨metaTape, _⟩ c₁ ⟨rfl, pages₁, metaTape⟩
  rw [if_neg (by simp [empty])]
  apply wlp_then (wlp_create false)
  rintro ⟨freepages, _⟩ c₂ ⟨rfl, pages₂, freepages⟩
  apply wlp_then (wlp_push_clear rfl freepages _)
  rintro ⟨_, freepages', _⟩ c₃ ⟨_, _, _, pages₃⟩
  apply wlp_then (wlp_create false)
  rintro ⟨centroids, _⟩ c₄ ⟨rfl, pages₄, centroids⟩
  apply wlp_then (wlp_buildVectors op centroids.size options.degreeOfParallelism)
  rintro vectors c₅ ⟨grown₅, size₅⟩
  have three : c₃.pages.length = 2 ∧ c₄.pages.length = 3 := by
    simp [pages₄, pages₃, pages₂, pages₁, empty]
  have more := grown₅.length_le
  have page₅ : pageIn c₅ 0 = pageIn c₁ 0 := by
    rw [pageIn_of_grown grown₅ (by omega)]
    simp [pageIn, pages₄, pages₃, pages₂, pages₁, empty]
  have centroids₅ := centroids.congr (fun id member =>
    pageIn_of_grown grown₅ (centroids.inside id member)) size₅ more
  apply wlp_then (wlp_buildAllCentroids op centroids₅ structures)
  rintro ⟨pointers, centroids'⟩ c₆ ⟨ids, added, centroids₆, grows, keyed⟩
  have page₆ : pageIn c₆ 0 = pageIn c₁ 0 := by
    rw [grows.frame 0 (by omega) (by simp; omega), page₅]
  have nonzero : ∀ id ∈ ids, id ≠ 0 := by
    intro id member
    rw [grows.pages, mem_append, mem_range'_1, mem_singleton] at member
    omega
  have nonempty : 0 < c₆.pages.length := by
    have := grows.size
    omega
  apply wlp_then (wlp_buildLevels op nonempty centroids₆.size keyed.length_eq.symm
    (keys_of_keyedLevels dims keyed centroids₆ nonzero) dims)
  rintro found c₇ ⟨grown₇, agrees₇, beneath⟩
  simp only [wlp_bind, wlp_expect]
  rintro below rfl pointer keyFound root _ first firstFound
  have page₇ : ∀ id ∈ [c.pages.length], pageIn c₇ id = pageIn c₁ id := by
    intro id member
    rw [mem_singleton.mp member, empty]
    exact (pageIn_of_grown grown₇ nonempty).trans page₆
  have metaTape₇ := metaTape.congr page₇ agrees₇.size (by
    rw [pages₁, empty]
    exact nonempty.trans_le grown₇.length_le)
  generalize made : MetaTuple.mk _ _ _ _ _ _ _ _ _ _ _ _ _ = tuple
  apply wlp_mono (wlp_push_clear rfl metaTape₇ _)
  rintro ⟨_, metaTape', _⟩ c₈ ⟨written, _, _, pages₈⟩
  apply wlp_bind.mpr (wlp_close _)
  apply wlp_bind.mpr (wlp_close _)
  apply wlp_bind.mpr (wlp_close _)
  dsimp only at pages₈
  rw [empty] at pages₈
  refine ⟨?_, tuple, by rw [← made], by rw [← made], by rw [← made], by rw [← made], ?_⟩
  · exact readBack_of_keyed keyed centroids₆ nonzero (agrees₇.trans (.of_set written.size pages₈))
  · rintro layered s rfl
    subst made
    exact tree_of_beneath beneath layered keyFound firstFound rfl rfl
      (nonempty.trans_le grown₇.length_le) written.size pages₈

theorem wlp_build (layered : WellLayered options.dim structures) (empty : c.pages = []) :
    (build op options structures).wlp (fun _ c' => ∃ tuple : MetaTuple,
      tuple.dim = options.dim ∧ tuple.isResidual = options.residualQuantization ∧
      tuple.heightOfRoot = structures.length ∧
      tuple.cells = structures.map (fun level => level.children.length) ∧
      ∀ s : RStore op.kind, s.content = c' → Tree s (layoutOf s tuple)) c := by
  apply wlp_then (wlp_buildKeys op layered.dims empty)
  rintro pointers c' ⟨_, tuple, dim, isResidual, height, cells, tree⟩
  exact ⟨tuple, dim, isResidual, height, cells, tree layered⟩

end

end VectorChord.Vchordrq
