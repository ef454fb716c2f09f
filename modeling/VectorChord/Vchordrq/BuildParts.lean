import VectorChord.Vchordrq.Lossless
import VectorChord.Vchordrq.Tree

/-!
# The parts of a new index

What `build` writes for one centroid, one leaf and one cell above the leaves.  Pages are
only added, apart from the end of the centroid tape and the meta page, so what holds of the
pages of a part still holds when `build` returns.
-/

namespace VectorChord.Vchordrq

open Collections Index Paged Rabitq List TapeWriter
open Prog hiding pure

variable {kind : VectorKind} {c c' c'' : Content (RPage kind)} {tape tape' : TapeWriter kind}
  {ids ids' : List Nat} {page : RPage kind} {added : List (Tuple kind)} {vector : Vector kind}
  {key : List Nat × Nat}

/-! ## Pages that stay -/

/-- The pages of `c` are still there, except perhaps for the first one. -/
structure Agrees (c c' : Content (RPage kind)) : Prop where
  size : c'.pages.length ≤ u32Max
  length : c.pages.length ≤ c'.pages.length
  same : ∀ id, id ≠ 0 → id < c.pages.length → pageIn c' id = pageIn c id

theorem Agrees.trans (first : Agrees c c') (second : Agrees c' c'') : Agrees c c'' where
  size := second.size
  length := first.length.trans second.length
  same := by
    intro id nonzero inside
    rw [second.same id nonzero (inside.trans_le first.length), first.same id nonzero inside]

theorem Agrees.of_grown (grown : c.pages <+: c'.pages) (size : c'.pages.length ≤ u32Max) :
    Agrees c c' where
  size := size
  length := grown.length_le
  same := fun _ _ inside => pageIn_of_grown grown inside

/-- Only the meta page is written. -/
theorem Agrees.of_set (size : c'.pages.length ≤ u32Max) (pages : c'.pages = c.pages.set 0 page) :
    Agrees c c' where
  size := size
  length := by rw [pages, length_set]
  same := by
    intro id nonzero _
    simp [pageIn, pages, getElem?_set_ne (Ne.symm nonzero)]

/-- The property holds of every store that still has these pages. -/
def Stands (c : Content (RPage kind)) (P : RStore kind → Prop) : Prop :=
  ∀ s : RStore kind, Agrees c s.content → P s

theorem Stands.later {P : RStore kind → Prop} (stands : Stands c P) (agrees : Agrees c c') :
    Stands c' P :=
  fun s more => stands s (agrees.trans more)

theorem Writes.congr (writes : Writes c tape ids)
    (same : ∀ id ∈ ids, pageIn c' id = pageIn c id) (size : c'.pages.length ≤ u32Max)
    (length : c.pages.length ≤ c'.pages.length) : Writes c' tape ids where
  size := size
  head := writes.head
  last := writes.last
  inside := fun id member => (writes.inside id member).trans_le length
  nodup := writes.nodup
  linked := by
    apply writes.linked.congr
    intro id member
    rw [nextAt, nextAt, same id member]
  page := (same _ writes.head_mem).trans writes.page
  dense := by
    intro id member
    rw [same id member]
    exact writes.dense id member

theorem Writes.later (writes : Writes c tape ids) (nonzero : ∀ id ∈ ids, id ≠ 0)
    (agrees : Agrees c c') : Writes c' tape ids :=
  writes.congr (fun id member => agrees.same id (nonzero id member) (writes.inside id member))
    agrees.size agrees.length

/-! ## Centroids -/

/-- Tuples stay in their slots. -/
theorem get_of_grown {page' : RPage kind} (dense : page.Dense) (dense' : page'.Dense)
    (kept : page.tuples <+: page'.tuples) {i : Nat} {tuple : Tuple kind}
    (found : page.get i = some tuple) : page'.get i = some tuple := by
  cases i with
  | zero => cases found
  | succ i =>
    rw [dense.get_succ] at found
    rw [dense'.get_succ]
    obtain ⟨more, split⟩ := kept
    rw [← split, List.getElem?_append_left (List.getElem?_eq_some_iff.mp found).1]
    exact found

theorem centroidAt_mono {page page' : Nat → RPage kind} {prefetch elements : List Nat}
    {head : Nat} {stored : Stored kind}
    (kept : ∀ id ∈ prefetch, ∀ i tuple, (page id).get i = some tuple →
      (page' id).get i = some tuple)
    (found : centroidAt page prefetch head elements = some stored) :
    centroidAt page' prefetch head elements = some stored := by
  induction prefetch generalizing head elements with
  | nil => cases found
  | cons id rest ih =>
    rw [centroidAt] at found ⊢
    obtain ⟨tuple, present, later⟩ := Option.bind_eq_some_iff.mp found
    obtain ⟨raw, slot, typed⟩ := Option.bind_eq_some_iff.mp present
    rw [kept id mem_cons_self head raw slot, Option.bind_some, typed]
    dsimp only [Option.bind_eq_bind, Option.bind_some] at later ⊢
    cases next : tuple.metadataOrHead with
    | inl metadata =>
      rw [next] at later
      exact later
    | inr head =>
      rw [next] at later
      exact ih (fun other member => kept other (mem_cons_of_mem id member)) later

/-- The vector is on the tape, under the key. -/
structure Keyed (c : Content (RPage kind)) (ids : List Nat) (vector : Vector kind)
    (key : List Nat × Nat) : Prop where
  pages : key.1 ⊆ ids
  length : key.1.length = count kind vector.dim
  found : centroidAt (pageIn c) key.1 key.2 [] = some (vector.elements, vector.metadata)

theorem Grows.get (grows : Grows c c' ids ids' added) (writes : Writes c tape ids)
    (writes' : Writes c' tape' ids') :
    ∀ id ∈ ids, ∀ i tuple, (pageIn c id).get i = some tuple →
      (pageIn c' id).get i = some tuple := by
  intro id member i tuple found
  exact get_of_grown (writes.dense id member) (writes'.dense id (grows.mem_of_mem member))
    (grows.kept id member) found

section

variable (keyed : Keyed c ids vector key)

include keyed

theorem Keyed.grow (grows : Grows c c' ids ids' added)
    (writes : Writes c tape ids) (writes' : Writes c' tape' ids') : Keyed c' ids' vector key where
  pages := fun _ member => grows.mem_of_mem (keyed.pages member)
  length := keyed.length
  found := by
    apply centroidAt_mono _ keyed.found
    intro id member
    exact grows.get writes writes' id (keyed.pages member)

theorem Keyed.kept (writes : Writes c tape ids)
    (nonzero : ∀ id ∈ ids, id ≠ 0) :
    Stands c fun s => (∀ id ∈ key.1, id < s.pages.length) ∧
      centroidAt (pageAt s) key.1 key.2 [] = some (vector.elements, vector.metadata) := by
  intro s agrees
  have inside : ∀ id ∈ key.1, id < c.pages.length :=
    fun id member => writes.inside id (keyed.pages member)
  refine ⟨fun id member => (inside id member).trans_le agrees.length, ?_⟩
  apply centroidAt_mono _ keyed.found
  intro id member i tuple found
  have same := agrees.same id (nonzero id (keyed.pages member)) (inside id member)
  rw [← found, ← same]
  rfl

theorem Keyed.stands (writes : Writes c tape ids)
    (nonzero : ∀ id ∈ ids, id ≠ 0) : Stands c fun s => Centroid s vector.dim key.1 key.2 := by
  intro s agrees
  obtain ⟨inside, found⟩ := keyed.kept writes nonzero s agrees
  exact ⟨inside, (vector.elements, vector.metadata), found, vector.packed⟩

end

/-- Some slices from the end of a vector are written; `chain` is what the slice before them
refers to. -/
structure Chained (c : Content (RPage kind)) (ids : List Nat) (metadata : kind.Metadata)
    (written : List (List Nat)) (chain : kind.Metadata ⊕ Nat) (prefetch : List Nat) : Prop where
  pages : prefetch ⊆ ids
  length : prefetch.length = written.length
  start : ∀ value, chain = .inl value → value = metadata ∧ prefetch = [] ∧ written = []
  found : ∀ head, chain = .inr head → ∀ elements,
    centroidAt (pageIn c) prefetch head elements = some (elements ++ written.flatten, metadata)

/-- One more slice. -/
theorem Chained.cons {metadata : kind.Metadata} {written : List (List Nat)}
    {chain : kind.Metadata ⊕ Nat} {prefetch slice : List Nat} {id head : Nat}
    (chained : Chained c ids metadata written chain prefetch) (grows : Grows c c' ids ids' added)
    (writes : Writes c tape ids) (writes' : Writes c' tape' ids') (member : id ∈ ids')
    (gets : (pageIn c' id).get head = some (centroidSlice chain slice)) :
    Chained c' ids' metadata (slice :: written) (.inr head) (id :: prefetch) where
  pages := by
    intro other listed
    cases mem_cons.mp listed with
    | inl same => rw [same]; exact member
    | inr old => exact grows.mem_of_mem (chained.pages old)
  length := congrArg (· + 1) chained.length
  start := nofun
  found := by
    rintro _ ⟨⟩ elements
    rw [centroidAt, gets]
    cases chain with
    | inl value =>
      obtain ⟨rfl, rfl, rfl⟩ := chained.start value rfl
      simp [centroidSlice, Tuple.asCentroid, CentroidTuple.metadataOrHead,
        CentroidTuple.elements]
    | inr next =>
      have rest := centroidAt_mono (fun other listed => grows.get writes writes' other
        (chained.pages listed)) (chained.found next rfl (elements ++ slice))
      rw [append_assoc] at rest
      exact rest

section
variable (op : Operator) [PageSpace (Tuple op.kind)]

theorem wlp_buildCentroid {c : Content (RPage op.kind)} {tape : TapeWriter op.kind}
    (writes : Writes c tape ids) (vector : Vector op.kind) :
    (buildCentroid op vector tape).wlp (fun result c' => ∃ ids' added,
      Writes c' result.2 ids' ∧ Grows c c' ids ids' added ∧ Keyed c' ids' vector result.1) c := by
  rw [buildCentroid, bind_eq, wlp_bind]
  apply wlp_foldlM fun rest (state : (op.kind.Metadata ⊕ Nat) × List Nat ×
      TapeWriter op.kind) c' => ∃ ids' added written,
    split op.kind vector.elements = rest.reverse ++ written ∧ Writes c' state.2.2 ids' ∧
      Grows c c' ids ids' added ∧ Chained c' ids' vector.metadata written state.1 state.2.1
  · rintro slice rest ⟨chain, prefetch, tape'⟩ c' ⟨ids', added, written, split, writes', grows,
      chained⟩
    apply wlp_then (wlp_push writes' (centroidSlice chain slice))
    rintro ⟨⟨id, head⟩, tape'', _⟩ c'' ⟨ids'', writes'', put, member, gets⟩
    exact ⟨ids'', _, slice :: written, by simp [split], writes'', grows.trans put,
      chained.cons put writes' writes'' member gets⟩
  · rintro ⟨chain, prefetch, tape'⟩ c' ⟨ids', added, written, split, writes', grows, chained⟩
    cases chain with
    | inl value => exact wlp_panic
    | inr head =>
      rw [reverse_nil, nil_append] at split
      refine ⟨ids', added, writes', grows, chained.pages, ?_, ?_⟩
      · rw [chained.length, ← split]
        exact length_split op.kind vector.packed
      · have found := chained.found head rfl []
        rw [← split, flatten_split] at found
        exact found
  · exact ⟨ids, [], [], by simp, writes, Grows.refl c ids, nil_subset _, rfl,
      fun value same => ⟨(Sum.inl.inj same).symm, rfl, rfl⟩, nofun⟩

end

/-! ## Leaves -/

theorem typed_of_empty {α : Type} (as : Tuple kind → Option α) (dense : page.Dense)
    (empty : page.tuples = []) : Typed as page := by
  refine ⟨dense, fun tuple member => ?_⟩
  rw [empty] at member
  cases member

/-- The tapes of a new leaf. -/
def newTapes (directory : List Nat) (frozen appendable : Nat) : TapeKind → List Nat
  | .directory => directory
  | .frozen => [frozen]
  | .appendable => [appendable]

variable {s : RStore kind}

/-- A leaf whose frozen and appendable tapes are new. -/
theorem leaf_of_new {dim first : Nat} {jump : JumpTuple}
    {frozen appendable directory : TapeWriter kind} {m n : Nat} (inside : first < s.pages.length)
    (found : (pageAt s first).get 1 = some (.jump jump)) (frozenTape : Writes s.content frozen [m])
    (noFrozen : (pageAt s m).tuples = []) (appendableTape : Writes s.content appendable [n])
    (noAppendable : (pageAt s n).tuples = [])
    (directoryTape : DirectoryTape s.content directory ids [m])
    (firsts : jump.directoryFirst = directory.first ∧ jump.frozenFirst = frozen.first ∧
      jump.appendableFirst = appendable.first) : Leaf s dim first jump (newTapes ids m n) where
  inside := inside
  found := found
  directory := firsts.1 ▸ directoryTape.writes.walkable
  directoryPages := fun _ member => directoryTape.uniform.typed directoryTape.writes member
  listed := directoryTape.pageIds
  frozen := firsts.2.1 ▸ frozenTape.walkable
  frozenPages := by
    intro id member
    have dense := frozenTape.dense id member
    rw [mem_singleton.mp member] at dense ⊢
    exact typed_of_empty _ dense noFrozen
  full := by
    intro block member
    simp [newTapes, frozenSlices, slicesOf, noFrozen, Blocks.blocks] at member
  appendable := firsts.2.2 ▸ appendableTape.walkable
  appendablePages := by
    intro id member
    have dense := appendableTape.dense id member
    rw [mem_singleton.mp member] at dense ⊢
    exact typed_of_empty _ dense noAppendable
  words := by
    intro tuple member
    simp [newTapes, appendableTuples, appendables, noAppendable] at member

/-- What `build` has written for a cell: the cell begins on a page behind all others. -/
structure Placed (c c' : Content (RPage kind)) (first : Nat) : Prop where
  grown : c.pages <+: c'.pages
  size : c'.pages.length ≤ u32Max
  behind : c.pages.length ≤ first
  inside : first < c'.pages.length

/-- An H1 tape is the tape of a cell. -/
theorem BlockTape.node {dim : Nat} {written : List (H1Header × List Row)}
    (holds : BlockTape Tuple.asH1Slice dim s.content tape ids written) :
    Node s dim tape.first (written.flatMap fun block => block.1.branches block.2) := by
  refine ⟨ids, holds.writes.walkable, ?_, holds.fullBlocks, ?_⟩
  · exact fun id member => holds.uniform.typed holds.writes member
  · rw [h1Slices, BlockTape.slices, holds.blocks]

section
variable (op : Operator) [PageSpace (Tuple op.kind)]

theorem wlp_buildLeaf {c : Content (RPage op.kind)} (nonempty : 0 < c.pages.length)
    (dim : Nat) (pointer : List Nat × Nat) :
    (buildLeaf op pointer).wlp (fun first c' => Placed c c' first ∧ ∃ jump tapes,
      Stands c' fun s => Leaf s dim first jump tapes) c := by
  apply wlp_then (wlp_create false)
  rintro ⟨frozen, _⟩ c₁ ⟨rfl, pages₁, frozenTape⟩
  apply wlp_then (wlp_create false)
  rintro ⟨appendable, _⟩ c₂ ⟨rfl, pages₂, appendableTape⟩
  apply wlp_bind.mpr (wlp_close _)
  apply wlp_then (wlp_create false)
  rintro ⟨directory, _⟩ c₃ ⟨rfl, pages₃, directoryTape⟩
  have clear : (pageIn c₃ c₂.pages.length).tuples = [] := by
    rw [directoryTape.page]
    rfl
  apply wlp_then (wlp_directoryPush (.of_clear directoryTape clear) _)
  rintro ⟨directory', _⟩ c₄ ⟨ids, added, listed, grows⟩
  apply wlp_then (wlp_create false)
  rintro ⟨jump, _⟩ c₅ ⟨rfl, pages₅, jumpTape⟩
  apply wlp_bind.mpr (wlp_close _)
  apply wlp_bind.mpr (wlp_close _)
  apply wlp_then (wlp_push_clear rfl jumpTape _)
  rintro ⟨_, jump', _⟩ c₆ ⟨written, first, _, pages₆⟩
  apply wlp_close
  rw [pages₅, set_append_right _ _ (Nat.le_refl _), Nat.sub_self, set_cons_zero]
    at pages₆
  obtain ⟨to₄, behind⟩ := grows.behind pages₃
  have to₁ : c.pages <+: c₁.pages := ⟨_, pages₁.symm⟩
  have to₂ : c₁.pages <+: c₂.pages := ⟨_, pages₂.symm⟩
  have to₆ : c₄.pages <+: c₆.pages := ⟨_, pages₆.symm⟩
  have positive : 0 < c₁.pages.length := nonempty.trans_le to₁.length_le
  have start : c.pages.length ≤ c₄.pages.length := (to₁.trans (to₂.trans to₄)).length_le
  have ending : c₄.pages.length < c₆.pages.length := by simp [pages₆]
  rw [first]
  refine ⟨⟨to₁.trans (to₂.trans (to₄.trans to₆)), written.size, start, ending⟩,
    ⟨pointer.1, pointer.2, directory'.first, c.pages.length, c₁.pages.length, 0⟩,
    newTapes ids c.pages.length c₁.pages.length, fun s agrees => ?_⟩
  have agrees₄ := (Agrees.of_grown to₆ written.size).trans agrees
  have agrees₂ := (Agrees.of_grown to₄ listed.writes.size).trans agrees₄
  have agrees₁ := (Agrees.of_grown to₂ appendableTape.size).trans agrees₂
  have frozenTape' := frozenTape.later (by simpa using nonempty.ne') agrees₁
  have appendableTape' := appendableTape.later (by simpa using positive.ne') agrees₂
  have nonzero : ∀ id ∈ ids, id ≠ 0 := by
    intro id member
    exact (positive.trans_le (to₂.length_le.trans (behind id member))).ne'
  have directoryTape' := listed.congr (listed.writes.later nonzero agrees₄) fun id member =>
    agrees₄.same id (nonzero id member) (listed.writes.inside id member)
  have jumpPage := agrees.same _ (nonempty.trans_le start).ne' ending
  apply leaf_of_new (ending.trans_le agrees.length) _ frozenTape' _ appendableTape' _
    directoryTape' ⟨rfl, rfl, rfl⟩
  · have page : pageAt s c₄.pages.length = pageIn c₆ c₄.pages.length := jumpPage
    rw [page, pageIn, pages₆]
    simp [Page.get]
  · exact congrArg Page.tuples frozenTape'.page
  · exact congrArg Page.tuples appendableTape'.page

/-! ## Cells above the leaves -/

/-- The key of the centroid of a child, and the first page of the child. -/
def Branch.pointer (branch : Branch Nat) : List Nat × Nat × Nat :=
  (branch.prefetch, branch.head, branch.extra)

/-- The branch of a child. -/
def childBranch (options : Options) (centroid vector : Vector op.kind)
    (pointer : List Nat × Nat) (first : Nat) : Branch Nat :=
  let (code, delta) := op.build vector
    (if options.residualQuantization then some (centroid.elements, centroid.metadata) else none)
  ⟨code, delta, pointer.1, pointer.2, op.norm vector, first⟩

theorem buildNode_eq (options : Options) (centroid : Vector op.kind)
    (children : List (Vector op.kind × (List Nat × Nat) × Nat)) :
    buildNode op options centroid children =
      (TapeWriter.create extendIndex false ()).bind fun (tape, _) =>
        h1Session (children.map fun child =>
          childBranch op options centroid child.1 child.2.1 child.2.2)
          (count op.kind options.dim) tape := by
  simp only [buildNode, h1Session, foldlM_map]
  rfl

theorem wlp_buildNode {c : Content (RPage op.kind)} (nonempty : 0 < c.pages.length)
    (options : Options) (centroid : Vector op.kind)
    {children : List (Vector op.kind × (List Nat × Nat) × Nat)}
    (fits : ∀ child ∈ children, child.1.dim = options.dim ∧
      child.2.1.1.length = count op.kind options.dim) :
    (buildNode op options centroid children).wlp (fun first c' => Placed c c' first ∧
      ∃ branches : List (Branch Nat),
        (Stands c' fun s => Node s options.dim first branches) ∧
        branches.map Branch.pointer =
          children.map fun child => (child.2.1.1, child.2.1.2, child.2.2)) c := by
  rw [buildNode_eq]
  apply wlp_then (wlp_create false)
  rintro ⟨tape, _⟩ c₁ ⟨rfl, pages₁, created⟩
  have clear : (pageIn c₁ c.pages.length).tuples = [] := by
    rw [created.page]
    rfl
  have proper : ∀ branch ∈ children.map (fun child =>
      childBranch op options centroid child.1 child.2.1 child.2.2),
      branch.Fits options.dim (count op.kind options.dim) := by
    intro branch member
    obtain ⟨child, listed, rfl⟩ := mem_map.mp member
    exact ⟨(op.length_signs _ _).trans (fits child listed).1, (fits child listed).2⟩
  apply wlp_mono (wlp_h1Session (.of_clear created clear) proper _)
  rintro first c' ⟨rfl, tape', ids', added, blocks, first, holds, grows, stored⟩
  obtain ⟨grown, behind⟩ := grows.behind pages₁
  have start : c.pages.length ∈ ids' := grows.mem_of_mem (mem_singleton_self _)
  have nonzero : ∀ id ∈ ids', id ≠ 0 :=
    fun id member => (nonempty.trans_le (behind id member)).ne'
  refine ⟨⟨grown, holds.writes.size, Nat.le_refl _, holds.writes.inside _ start⟩,
    blocks.flatMap fun block => block.1.branches block.2, fun s agrees => ?_, ?_⟩
  · have later := holds.congr (holds.writes.later nonzero agrees) fun id member =>
      agrees.same id (nonzero id member) (holds.writes.inside id member)
    have node := later.node
    rw [first] at node
    exact node
  · have delivered : blocks.flatMap (fun block =>
        (block.1.branches block.2).map Branch.pointer) = (children.map fun child =>
          childBranch op options centroid child.1 child.2.1 child.2.2).map Branch.pointer := by
      apply stored.flatMap_eq proper
      intro chunk block held fits
      rw [← held.branches fits, map_map]
      rfl
    rw [map_flatMap, delivered, map_map]
    rfl

end

end VectorChord.Vchordrq
