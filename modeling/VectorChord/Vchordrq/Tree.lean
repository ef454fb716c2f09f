import VectorChord.Vchordrq.Reading

/-!
# Trees of cells

What a search needs to find on pages that nobody writes to: a meta tuple, an H1 tape for
every cell above the leaves, a centroid for every child, and the tapes of the leaves.
-/

namespace VectorChord.Vchordrq

open Collections Index Paged Rabitq List
open Prog hiding pure
open Collections.Blocks (Slice blocks unfinished)
open Maxsim (Distance)

variable {kind : VectorKind} {τ : Type} {t : Nat} {s : RStore kind}

/-! ## Centroids -/

/-- The centroid with the given key; `elements` are those of the slices before. -/
def centroidAt (page : Nat → RPage kind) :
    (prefetch : List Nat) → (head : Nat) → (elements : List Nat) → Option (Stored kind)
  | [], _, _ => none
  | id :: rest, head, elements => do
    let tuple ← ((page id).get head).bind Tuple.asCentroid
    match tuple.metadataOrHead with
    | .inr head => centroidAt page rest head (elements ++ tuple.elements)
    | .inl metadata => if rest = [] then some (elements ++ tuple.elements, metadata) else none

variable {prefetch : List Nat} {branches : List (Branch Nat)}

theorem yields_centroidsRead (quiet : s.Quiet) {head : Nat} {elements : List Nat}
    {stored : Stored kind} (inside : ∀ id ∈ prefetch, id < s.pages.length)
    (found : centroidAt (pageAt s) prefetch head elements = some stored) :
    Prog.Yields t s (centroidsRead prefetch head elements) stored := by
  induction prefetch generalizing head elements with
  | nil => cases found
  | cons id rest ih =>
    obtain ⟨tuple, present, later⟩ := Option.bind_eq_some_iff.mp found
    apply Prog.Yields.latched (getElem?_pages (inside id mem_cons_self)) (quiet id)
    · exact yields_expect present
    · cases next : tuple.metadataOrHead with
      | inr head =>
        rw [next] at later
        exact ih (fun other member => inside other (mem_cons_of_mem id member)) later
      | inl metadata =>
        rw [next] at later
        dsimp only at later ⊢
        split_ifs at later with last
        cases later
        rw [if_pos last]
        exact yields_pure _

/-- A centroid of the given dimension with the given key. -/
structure Centroid (s : RStore kind) (dim : Nat) (prefetch : List Nat) (head : Nat) : Prop where
  inside : ∀ id ∈ prefetch, id < s.pages.length
  found : ∃ stored, centroidAt (pageAt s) prefetch head [] = some stored ∧
    stored.1.length = kind.packedLength dim

/-- The distance of the centroid with the given key. -/
def Query.distanceAt (query : Query kind) (s : RStore kind) (prefetch : List Nat)
    (head : Nat) : Distance :=
  match centroidAt (pageAt s) prefetch head [] with
  | some stored => query.distance stored
  | none => distanceZero

theorem Query.yields_measure (query : Query kind) (quiet : s.Quiet) {head : Nat}
    (centroid : Centroid s query.dim prefetch head) :
    Prog.Yields t s (query.measure prefetch head) (query.distanceAt s prefetch head) := by
  obtain ⟨stored, found, length⟩ := centroid.found
  apply (yields_centroidsRead quiet centroid.inside found).bind
  rw [if_pos length, Query.distanceAt, found]
  exact yields_pure _

/-! ## Cells -/

/-- The slices of an H1 tape. -/
def h1Slices (s : RStore kind) (ids : List Nat) : List (Slice H1Header Row) :=
  ids.flatMap fun id => slicesOf Tuple.asH1Slice (pageAt s id)

/-- The H1 tape of a cell with the given children. -/
structure Node (s : RStore kind) (dim first : Nat) (branches : List (Branch Nat)) : Prop where
  tape : ∃ ids, Walkable s ids first ∧ (∀ id ∈ ids, Typed Tuple.asH1Slice (pageAt s id)) ∧
    FullBlocks dim [] (h1Slices s ids) ∧
    (blocks [] (h1Slices s ids)).flatMap (fun block => block.1.branches block.2) = branches

/-- Reading the H1 tape of a cell in blocks. -/
theorem Node.yields_forNext {β : Type} {dim first : Nat} (quiet : s.Quiet)
    (node : Node s dim first branches) (value : Branch Nat → β) (results : List β) :
    Prog.Yields t s (do
      let (_, results) ← forNext .plain first (([], results) : List Row × List β)
        fun state _ page => readBlocks Tuple.asH1Slice dim
          (fun header rows => (header.branches rows).map value) state page
      pure results) (results ++ branches.map value) := by
  obtain ⟨ids, tape, typed, full, rfl⟩ := node.tape
  let values (header : H1Header) (rows : List Row) := (header.branches rows).map value
  have walked : Prog.Yields t s (forNext .plain first
      (blockState Tuple.asH1Slice values results (pageAt s) []) fun state _ page =>
        readBlocks Tuple.asH1Slice dim values state page)
      (blockState Tuple.asH1Slice values results (pageAt s) ids) := by
    apply yields_forNext quiet tape
    intro front id back split
    exact readBlocks_blockState typed full values results split
  have start : blockState Tuple.asH1Slice values results (pageAt s) [] = ([], results) := by
    simp [blockState, unfinished, blocks]
  rw [start] at walked
  apply walked.bind
  have delivered : (blockState Tuple.asH1Slice values results (pageAt s) ids).2 =
      results ++ ((blocks [] (h1Slices s ids)).flatMap
        fun block => block.1.branches block.2).map value := by
    rw [blockState, map_flatMap]
    rfl
  rw [← delivered]
  exact yields_pure _

theorem typed_asH1 {page : RPage kind} (typed : Typed Tuple.asH1Slice page) :
    Typed Tuple.asH1 page := by
  refine ⟨typed.dense, fun tuple member => ?_⟩
  have slice := typed.typed tuple member
  rw [Tuple.asH1Slice, Option.isSome_map] at slice
  exact slice

theorem h1Children_eq (page : RPage kind) :
    h1Children (h1s page) =
      (slicesOf Tuple.asH1Slice page).flatMap fun slice => slice.1.elim [] H1Header.children := by
  have slices : slicesOf Tuple.asH1Slice page = (h1s page).map H1Tuple.slice := by
    rw [slicesOf, h1s, map_filterMap]
    rfl
  rw [slices, h1Children, flatMap_map]
  apply flatMap_congr
  intro tuple _
  cases tuple <;> rfl

/-- Reading the H1 tape of a cell without its codes. -/
theorem Node.yields_readH1Tape {dim first : Nat} (quiet : s.Quiet)
    (node : Node s dim first branches) :
    Prog.Yields t s (readH1Tape first) (branches.map Branch.child) := by
  obtain ⟨ids, tape, typed, _, rfl⟩ := node.tape
  have walked : Prog.Yields t s (readH1Tape first)
      ([] ++ ids.flatMap fun id => h1Children (h1s (pageAt s id))) := by
    apply yields_forNext_collect quiet tape fun page => h1Children (h1s page)
    intro collected id member
    exact readH1Page_eq (typed_asH1 (typed id member)) collected
  have children : (ids.flatMap fun id => h1Children (h1s (pageAt s id))) =
      ((blocks [] (h1Slices s ids)).flatMap fun block => block.1.branches block.2).map
        Branch.child := by
    have headers := Blocks.flatMap_headers H1Header.children [] (h1Slices s ids)
    simp only [h1Children_eq]
    rw [← flatMap_assoc]
    rw [map_flatMap]
    refine headers.symm.trans ?_
    apply flatMap_congr
    intro block _
    rw [H1Header.branches, map_map]
    rfl
  rw [nil_append, children] at walked
  exact walked

/-! ## Leaves -/

/-- The slices of a frozen tape. -/
def frozenSlices (s : RStore kind) (ids : List Nat) : List (Slice FrozenHeader Row) :=
  ids.flatMap fun id => slicesOf Tuple.asFrozenSlice (pageAt s id)

/-- The tuples of an appendable tape. -/
def appendableTuples (s : RStore kind) (ids : List Nat) : List AppendableTuple :=
  ids.flatMap fun id => appendables (pageAt s id)

/-- A leaf with the given jump tuple and tapes. -/
structure Leaf (s : RStore kind) (dim first : Nat) (jump : JumpTuple)
    (tapes : TapeKind → List Nat) : Prop where
  inside : first < s.pages.length
  found : (pageAt s first).get 1 = some (.jump jump)
  directory : Walkable s (tapes .directory) jump.directoryFirst
  directoryPages : ∀ id ∈ tapes .directory, Typed Tuple.asDirectory (pageAt s id)
  listed : (tapes .directory).flatMap (fun id => pageIds (pageAt s id)) = tapes .frozen
  frozen : Walkable s (tapes .frozen) jump.frozenFirst
  frozenPages : ∀ id ∈ tapes .frozen, Typed Tuple.asFrozenSlice (pageAt s id)
  full : FullBlocks dim [] (frozenSlices s (tapes .frozen))
  appendable : Walkable s (tapes .appendable) jump.appendableFirst
  appendablePages : ∀ id ∈ tapes .appendable, Typed Tuple.asAppendable (pageAt s id)
  words : ∀ tuple ∈ appendableTuples s (tapes .appendable),
    tuple.elements.length = (dim + 63) / 64

/-- Latches do not matter. -/
theorem Leaf.acquire {dim first : Nat} {jump : JumpTuple} {tapes : TapeKind → List Nat}
    (leaf : Leaf s dim first jump tapes) (latch : Latch Tag) :
    Leaf (s.acquire latch) dim first jump tapes where
  inside := leaf.inside
  found := leaf.found
  directory := leaf.directory.acquire latch
  directoryPages := leaf.directoryPages
  listed := leaf.listed
  frozen := leaf.frozen.acquire latch
  frozenPages := leaf.frozenPages
  full := leaf.full
  appendable := leaf.appendable.acquire latch
  appendablePages := leaf.appendablePages
  words := leaf.words

section
variable (query : Query kind) (epsilon : BitVec 32) (extra : BitVec 32 → τ)
  (isResidual : Bool) (cell : Cell)

/-- What a search pushes for the entries of a frozen tape. -/
def Query.frozenCandidates (s : RStore kind) (ids : List Nat) : List (Candidate τ) :=
  (blocks [] (frozenSlices s ids)).flatMap fun block =>
    (block.1.branches block.2).map (query.frozenCandidate epsilon extra isResidual cell)

/-- What a search pushes for the entries of some appendable tuples. -/
def Query.appendableCandidates (tuples : List AppendableTuple) : List (Candidate τ) :=
  tuples.filterMap fun tuple => tuple.payload.map
    (query.appendableCandidate epsilon extra isResidual cell tuple)

/-- What a search pushes for the entries of a leaf. -/
def Query.leafCandidates (s : RStore kind) (tapes : TapeKind → List Nat) :
    List (Candidate τ) :=
  query.frozenCandidates epsilon extra isResidual cell s (tapes .frozen) ++
    query.appendableCandidates epsilon extra isResidual cell
      (appendableTuples s (tapes .appendable))

variable {query} {jump : JumpTuple} {tapes : TapeKind → List Nat}

/-- The frozen tape is read in the same order by its links and by the directory. -/
theorem Leaf.yields_searchFrozen (quiet : s.Quiet)
    (leaf : Leaf s query.dim cell.first jump tapes) (prefetcher : Option (Nat → Nat))
    (results : List (Candidate τ)) :
    Prog.Yields t s
      (query.searchFrozen epsilon extra isResidual prefetcher cell jump results)
      (results ++ query.frozenCandidates epsilon extra isResidual cell s (tapes .frozen)) := by
  let values (header : FrozenHeader) (rows : List Row) :=
    (header.branches rows).map (query.frozenCandidate epsilon extra isResidual cell)
  let states := blockState Tuple.asFrozenSlice values results (pageAt s)
  have steps : ∀ front id back, tapes .frozen = front ++ id :: back →
      query.readFrozen epsilon extra isResidual cell (states front) (pageAt s id) =
        .pure (states (front ++ [id])) := by
    intro front id back split
    exact readBlocks_blockState leaf.frozenPages leaf.full values results split
  have start : states [] = ([], results) := by
    simp [states, blockState, unfinished, blocks]
  have delivered : (states (tapes .frozen)).2 = results ++
      query.frozenCandidates epsilon extra isResidual cell s (tapes .frozen) := rfl
  cases prefetcher with
  | none =>
    have walked : Prog.Yields t s (forNext (.leaf cell.first .frozen) jump.frozenFirst
        (states []) fun state _ page => query.readFrozen epsilon extra isResidual cell
          state page) (states (tapes .frozen)) := yields_forNext quiet leaf.frozen states steps
    rw [start] at walked
    apply walked.bind
    exact yields_pure _
  | some ahead =>
    have walked : (forDirectory ahead (.leaf cell.first .directory) (.leaf cell.first .frozen)
        jump.directoryFirst (states []) fun state _ page =>
          query.readFrozen epsilon extra isResidual cell state page).returns t 0
        (fun result s' => result.1 = states (tapes .frozen) ∧ s' = s) s :=
      returns_forDirectory quiet leaf.directory leaf.directoryPages leaf.listed
        leaf.frozen.inside leaf.frozen.nodup states steps
    rw [start] at walked
    rw [Query.searchFrozen]
    apply returns_then walked
    rintro ⟨state, trace⟩ s' ⟨same, rfl⟩
    dsimp only at same ⊢
    rw [same]
    exact ⟨rfl, rfl⟩

theorem readAppendable_eq {page : RPage kind} (typed : Typed Tuple.asAppendable page)
    (words : ∀ tuple ∈ appendables page, tuple.elements.length = (query.dim + 63) / 64)
    (results : List (Candidate τ)) :
    query.readAppendable epsilon extra isResidual cell results page =
      .pure (results ++ query.appendableCandidates epsilon extra isResidual cell
        (appendables page)) := by
  refine (typed.foldlM_slots _ results).trans ?_
  rw [appendables] at words ⊢
  revert words
  induction page.tuples.filterMap Tuple.asAppendable generalizing results with
  | nil =>
    simp [Query.appendableCandidates]
  | cons tuple tuples ih =>
    intro words
    have first := words tuple mem_cons_self
    have later := fun results => ih results fun other member =>
      words other (mem_cons_of_mem tuple member)
    rw [foldlM_cons]
    cases payload : tuple.payload with
    | none =>
      refine (later results).trans ?_
      simp [Query.appendableCandidates, payload]
    | some value =>
      simp only [if_pos first, bind_eq, pure_eq, pure_bind]
      refine (later _).trans ?_
      simp [Query.appendableCandidates, payload]

/-- A search pushes a candidate for every entry of a leaf. -/
theorem Leaf.yields_searchLeaf (quiet : s.Quiet)
    (leaf : Leaf s query.dim cell.first jump tapes) (prefetcher : Option (Nat → Nat))
    (results : List (Candidate τ)) :
    Prog.Yields t s (query.searchLeaf epsilon extra isResidual prefetcher cell results)
      (results ++ query.leafCandidates epsilon extra isResidual cell s tapes, jump) := by
  have program : query.searchLeaf epsilon extra isResidual prefetcher cell results =
      (read .plain cell.first).bind fun page =>
        ((getTuple Tuple.asJump page 1).bind fun jump =>
          (query.searchFrozen epsilon extra isResidual prefetcher cell jump results).bind
            fun results => (forNext (.leaf cell.first .appendable) jump.appendableFirst results
              fun results _ page => query.readAppendable epsilon extra isResidual cell results
                page).bind fun results => .pure (results, jump)).bind
        fun value => (dropRead cell.first).bind fun _ => .pure value := by
    simp only [Query.searchLeaf, bind_eq, pure_eq, bind_assoc, pure_bind]
  rw [program]
  apply Prog.Yields.latched (getElem?_pages leaf.inside) (quiet cell.first) _
    (yields_pure _)
  have quiet' := quiet.acquire t cell.first .plain
  have leaf' := leaf.acquire ⟨t, cell.first, .share, .plain⟩
  have present : ((pageAt s cell.first).get 1).bind Tuple.asJump = some jump := by
    rw [leaf.found]
    rfl
  apply (yields_expect present).bind
  apply (leaf'.yields_searchFrozen epsilon extra isResidual cell quiet' prefetcher results).bind
  refine Prog.Yields.bind ?_ (yields_pure _)
  rw [Query.leafCandidates, ← append_assoc]
  have tuples : query.appendableCandidates epsilon extra isResidual cell
      (appendableTuples s (tapes .appendable)) = (tapes .appendable).flatMap fun id =>
        query.appendableCandidates epsilon extra isResidual cell
          (appendables (pageAt s id)) := by
    rw [Query.appendableCandidates, appendableTuples, filterMap_flatMap]
    rfl
  rw [tuples]
  apply yields_forNext_collect quiet' leaf'.appendable fun page =>
    query.appendableCandidates epsilon extra isResidual cell (appendables page)
  intro collected id member
  apply readAppendable_eq _ _ _ _ (leaf.appendablePages id member)
  intro tuple found
  exact leaf.words tuple (mem_flatMap.mpr ⟨id, member, found⟩)

end

end VectorChord.Vchordrq
