import VectorChord.Collections.Blocks
import VectorChord.Paged.Lazy
import VectorChord.Vchordrq.Contents
import VectorChord.Vchordrq.Rerank
import VectorChord.Vchordrq.Vectors

/-!
# Search

`default_search` and `maxsim_search`: descend from the root, keep some of the children of
every level, and deliver the entries of the leaves that are left.

A level whose children are all kept is read without looking at distances, unless
residuals are quantized or the order is needed afterwards.  Otherwise its children are
ranked lazily by the distance of their centroids.
-/

namespace VectorChord.Vchordrq

open Collections Index Paged Rabitq
open Collections.Blocks (Slice)
open Maxsim (Distance)

variable {kind : VectorKind} {τ : Type}

/-- The meta page, latched. -/
def readMeta : RProg kind MetaTuple := do
  let page ← Prog.read .plain 0
  getTuple Tuple.asMeta page 1

/-- A query vector, with what its operator computes for it. -/
structure Query (kind : VectorKind) where
  dim : Nat
  /-- The distance of a vector in full precision. -/
  distance : Stored kind → Distance
  /-- `O::block_access`: the rough distance of a code in a block, and its error.  It may
  depend on the distance and the norm of the centroid of the cell. -/
  block : (isResidual : Bool) → (disF : BitVec 32) → (norm : Word) → Code → (delta : Word) →
    BitVec 32 × BitVec 32
  /-- `O::binary_access`: the same for a code of its own. -/
  binary : (isResidual : Bool) → (disF : BitVec 32) → (norm : Word) →
    (metadata : Fin 4 → Word) → (elements : List Nat) → (delta : Word) →
    BitVec 32 × BitVec 32
  /-- `rough - err * epsilon`. -/
  lower : (rough err epsilon : BitVec 32) → BitVec 32

/-- A cell of the tree: the distance of its centroid, the norm of its centroid, and its
first page. -/
abbrev Cell := Distance × Word × Nat

def Cell.first (cell : Cell) : Nat := cell.2.2

/-- `Distance::ZERO`. -/
def distanceZero : Distance := Distance.fromF32 0

/-- `Distance::NEG_INFINITY`. -/
def distanceNegInfinity : Distance := Distance.fromF32 0xff800000

/-! ## Tapes of blocks -/

def H1Tuple.slice : H1Tuple → Slice H1Header Row
  | .v0 header elements => (some header, elements)
  | .v1 elements => (none, elements)

def FrozenTuple.slice : FrozenTuple → Slice FrozenHeader Row
  | .v0 header elements => (some header, elements)
  | .v1 elements => (none, elements)

def Tuple.asH1Slice (tuple : Tuple kind) : Option (Slice H1Header Row) :=
  tuple.asH1.map H1Tuple.slice

def Tuple.asFrozenSlice (tuple : Tuple kind) : Option (Slice FrozenHeader Row) :=
  tuple.asFrozen.map FrozenTuple.slice

/-- `read_h1_tape` and `read_frozen_tape` over one page, with the accessor of a search:
the rows of a block are as many as the query has nibbles.  The rows of an unfinished
block are carried over to the next slot. -/
def readBlocks {η β : Type} (as : Tuple kind → Option (Slice η Row)) (dim : Nat)
    (values : η → List Row → List β) (state : List Row × List β) (page : RPage kind) :
    RProg kind (List Row × List β) :=
  page.slots.foldlM (fun (rows, results) slot => do
    match ← Prog.expect (slot.bind as) with
    | (some header, elements) =>
      if (rows ++ elements).length = (dim + 3) / 4 then
        pure ([], results ++ values header (rows ++ elements))
      else Prog.panic
    | (none, elements) => pure (rows ++ elements, results)) state

/-- Lane `j` of a block whose rows are `elements`. -/
def H1Header.branch (header : H1Header) (elements : List Row) (j : Fin 32) : Branch Nat where
  code := ⟨laneMetadata header.metadata j, unpackWords 4 (unpack elements j)⟩
  delta := header.delta j
  prefetch := lanePrefetch header.prefetch j
  head := header.head j
  norm := header.norm j
  extra := header.first j

/-- A child without its code. -/
def Branch.child (branch : Branch Nat) : Child :=
  ⟨branch.extra, branch.norm, branch.head, branch.prefetch⟩

/-- The children of a block, with their codes. -/
def H1Header.branches (header : H1Header) (elements : List Row) : List (Branch Nat) :=
  ((List.finRange 32).filter fun j => j.val < header.len).map (header.branch elements)

section
variable (query : Query kind) (epsilon : BitVec 32) (isResidual : Bool)

/-- The rough distance of a code in a block of a cell, and its error. -/
def Query.rough {α : Type} (cell : Cell) (branch : Branch α) : BitVec 32 × BitVec 32 :=
  query.block isResidual cell.1.toF32 cell.2.1 branch.code branch.delta

/-- The lower bound of a rough distance. -/
def Query.lowerbound (value : BitVec 32 × BitVec 32) : Distance :=
  Distance.fromF32 (query.lower value.1 value.2 epsilon)

/-- `centroids::read` with the distance accessor of the query. -/
def Query.measure (prefetch : List Nat) (head : Nat) : RProg kind Distance := do
  let stored ← centroidsRead prefetch head []
  if stored.1.length = kind.packedLength query.dim then pure (query.distance stored)
  else Prog.panic

/-! ## One level -/

/-- A child of a cell with the lower bound of its distance. -/
def Query.roughChild (cell : Cell) (branch : Branch Nat) : RoughChild where
  lowerbound := query.lowerbound epsilon (query.rough isResidual cell branch)
  child := branch.child

/-- The children of all cells of a level, with lower bounds. -/
def Query.roughChildren (state : List Cell) : RProg kind (List RoughChild) :=
  state.foldlM (fun results cell => do
    let (_, results) ← forNext .plain cell.first (([], results) : List Row × List RoughChild)
      fun state _ page => readBlocks Tuple.asH1Slice query.dim
        (fun header rows =>
          (header.branches rows).map (query.roughChild epsilon isResidual cell)) state page
    pure results) []

/-- What the iterator of a level does to the next child. -/
def Query.evaluate (rough : RoughChild) : RProg kind (Option (Distanceᵒᵈ × Word × Nat)) := do
  let distance ← query.measure rough.child.prefetch rough.child.head
  pure (some (OrderDual.toDual distance, rough.child.norm, rough.child.first))

/-- The children of all cells of a level, without their distances. -/
def fastChildren (state : List Cell) : RProg kind (List Cell) :=
  state.foldlM (fun results cell => do
    let children ← readH1Tape cell.first
    pure (results ++ children.map fun child => (distanceZero, child.norm, child.first))) []

end

/-- Where a search is on its way down: the cells of the current level, the iterator of
the last level whose children were ranked, and the first pages of the cells of every
level so far, for reference. -/
structure Descent (family : PrefetcherFamily RoughChild.rank) where
  state : List Cell
  it : Option (BestFirst.State family.source (Word × Nat))
  trace : List (List Nat)

section
variable [Heap] (query : Query kind) (epsilon : BitVec 32)
  (family : PrefetcherFamily RoughChild.rank)

/-- Keep at most `limit` children of the current cells; the level below has `cells`
cells. -/
def Query.descendLevel (isResidual needsSort : Bool) (limit cells : Nat)
    (descent : Descent family) : RProg kind (Descent family) :=
  if limit < cells || isResidual || needsSort then do
    let children ← query.roughChildren epsilon isResidual descent.state
    let (found, it) ← Lazy.take query.evaluate limit (start family children)
    let state := found.map unreversed
    pure ⟨state, some it, descent.trace ++ [state.map Cell.first]⟩
  else do
    let state ← fastChildren descent.state
    pure ⟨state, descent.it, descent.trace ++ [state.map Cell.first]⟩

/-- From the root to the leaves. -/
def Query.descend (tuple : MetaTuple) (needsSort : Nat → Bool) (probes : List Nat)
    (root : Cell) : RProg kind (Descent family) :=
  (List.range (tuple.heightOfRoot - 1)).foldlM (fun descent i => do
    let limit ← Prog.expect probes[i]?
    let cells ← Prog.expect tuple.cells[tuple.heightOfRoot - 2 - i]?
    query.descendLevel epsilon family tuple.isResidual (needsSort i) limit cells descent)
    ⟨[root], none, [[root.first]]⟩

/-- The distance of the root, where it is needed. -/
def Query.measureRoot (tuple : MetaTuple) : RProg kind Distance :=
  if tuple.isResidual then query.measure tuple.centroidPrefetch tuple.centroidHead
  else pure distanceZero

/-- The common start of the searches: check the request and find the root. -/
def Query.searchRoot (probes : List Nat) : RProg kind (MetaTuple × Cell) := do
  let tuple ← readMeta
  if tuple.dim ≠ query.dim then Prog.panic
  else if tuple.heightOfRoot ≠ 1 + probes.length then Prog.panic
  else do
    let distance ← query.measureRoot tuple
    Prog.dropRead 0
    pure (tuple, (distance, tuple.centroidNorm, tuple.first))

/-! ## Leaves -/

/-- What a search pushes for an entry. -/
def Query.candidate (extra : BitVec 32 → τ) (value : BitVec 32 × BitVec 32)
    (payload : Payload) (head : Nat) (prefetch : List Nat) : Candidate τ where
  lowerbound := query.lowerbound epsilon value
  extra := extra value.1
  payload := payload
  head := head
  prefetch := prefetch

/-- What a search pushes for an entry of a frozen tape. -/
def Query.frozenCandidate (extra : BitVec 32 → τ) (isResidual : Bool) (cell : Cell)
    (branch : Branch Payload) : Candidate τ :=
  query.candidate epsilon extra (query.rough isResidual cell branch) branch.extra
    branch.head branch.prefetch

/-- `read_frozen_tape` over one page. -/
def Query.readFrozen (extra : BitVec 32 → τ) (isResidual : Bool) (cell : Cell)
    (state : List Row × List (Candidate τ)) (page : RPage kind) :
    RProg kind (List Row × List (Candidate τ)) :=
  readBlocks Tuple.asFrozenSlice query.dim
    (fun header rows => (header.branches rows).map
      (query.frozenCandidate epsilon extra isResidual cell)) state page

/-- What a search pushes for an appendable tuple. -/
def Query.appendableCandidate (extra : BitVec 32 → τ) (isResidual : Bool) (cell : Cell)
    (tuple : AppendableTuple) (payload : Payload) : Candidate τ :=
  query.candidate epsilon extra
    (query.binary isResidual cell.1.toF32 cell.2.1 tuple.metadata tuple.elements tuple.delta)
    payload tuple.head tuple.prefetch

/-- `read_appendable_tape` over one page; a code has as many words as the query. -/
def Query.readAppendable (extra : BitVec 32 → τ) (isResidual : Bool) (cell : Cell)
    (results : List (Candidate τ)) (page : RPage kind) : RProg kind (List (Candidate τ)) :=
  page.slots.foldlM (fun results slot => do
    let tuple ← Prog.expect (slot.bind Tuple.asAppendable)
    match tuple.payload with
    | none => pure results
    | some payload =>
      if tuple.elements.length = (query.dim + 63) / 64 then
        pure (results ++
          [query.appendableCandidate epsilon extra isResidual cell tuple payload])
      else Prog.panic) results

/-- The frozen tape of a leaf.  `prefetcher` is the look-ahead of the prefetcher of frozen
pages, if it is not the plain one. -/
def Query.searchFrozen (extra : BitVec 32 → τ) (isResidual : Bool)
    (prefetcher : Option (Nat → Nat)) (cell : Cell) (jump : JumpTuple)
    (results : List (Candidate τ)) : RProg kind (List (Candidate τ)) :=
  match prefetcher with
  | some ahead => do
    let ((_, results), _) ← forDirectory ahead (.leaf cell.first .directory)
      (.leaf cell.first .frozen) jump.directoryFirst
      (([], results) : List Row × List (Candidate τ)) fun state _ page =>
        query.readFrozen epsilon extra isResidual cell state page
    pure results
  | none => do
    let (_, results) ← forNext (.leaf cell.first .frozen) jump.frozenFirst
      (([], results) : List Row × List (Candidate τ)) fun state _ page =>
        query.readFrozen epsilon extra isResidual cell state page
    pure results

/-- The entries of one leaf, under a shared latch on its jump page. -/
def Query.searchLeaf (extra : BitVec 32 → τ) (isResidual : Bool)
    (prefetcher : Option (Nat → Nat)) (cell : Cell) (results : List (Candidate τ)) :
    RProg kind (List (Candidate τ) × JumpTuple) := do
  let page ← Prog.read .plain cell.first
  let jump ← getTuple Tuple.asJump page 1
  let results ← query.searchFrozen epsilon extra isResidual prefetcher cell jump results
  let results ← forNext (.leaf cell.first .appendable) jump.appendableFirst results
    fun results _ page => query.readAppendable epsilon extra isResidual cell results page
  Prog.dropRead cell.first
  pure (results, jump)

/-- `default_search`, with the first pages of the cells of every level for reference. -/
def Query.defaultSearch (probes : List Nat) (prefetcher : Option (Nat → Nat)) :
    RProg kind (List (Candidate Unit) × List (List Nat)) := do
  let (tuple, root) ← query.searchRoot probes
  let descent ← query.descend epsilon family tuple (fun _ => false) probes root
  let results ← descent.state.foldlM (fun results cell => do
    let (results, _) ← query.searchLeaf epsilon (fun _ => ()) tuple.isResidual prefetcher
      cell results
    pure results) []
  pure (results, descent.trace)

/-- `threshold.saturating_sub(jump_tuple.tuples().min(u32::MAX))`. -/
def remainingThreshold (threshold : Nat) (jump : JumpTuple) : Nat :=
  threshold - min jump.tuples u32Max

/-- One round of the loop that looks for the leaf at which the threshold is reached: the
iterator, what is left of the threshold, the estimation so far, and, for reference, the
jump pages that were looked at. -/
def Query.estimateRound :
    BestFirst.State family.source (Word × Nat) × Nat × Distance × List Nat →
      RProg kind
        (BestFirst.State family.source (Word × Nat) × Nat × Distance × List Nat ⊕
          Distance × List Nat)
  | (it, threshold, estimation, decoded) => do
    match ← Lazy.next query.evaluate it with
    | (none, _) => pure (.inr (estimation, decoded))
    | (some (distance, _, first), it) =>
      if threshold = 0 then pure (.inr (estimation, decoded))
      else do
        let page ← Prog.read .plain first
        let jump ← getTuple Tuple.asJump page 1
        Prog.dropRead first
        pure (.inl (it, remainingThreshold threshold jump, OrderDual.ofDual distance,
          decoded ++ [first]))

/-- The distance of the leaf at which the threshold is reached. -/
def Query.estimate (it : BestFirst.State family.source (Word × Nat)) (threshold : Nat) :
    RProg kind (Distance × List Nat) :=
  Prog.loop (query.estimateRound family) iterations (it, threshold, distanceNegInfinity, [])

/-- The estimation of `maxsim_search`. -/
def Query.estimateByThreshold (it : Option (BestFirst.State family.source (Word × Nat)))
    (threshold : Nat) : RProg kind (Distance × List Nat) :=
  match it with
  | none => pure (distanceNegInfinity, [])
  | some it => query.estimate family it threshold

/-- What `maxsim_search` returns, with the first pages of the cells of every level and the
jump pages that were looked at for the estimation, for reference. -/
structure MaxsimSearch where
  results : List (Candidate Distance)
  estimation : Distance
  trace : List (List Nat)
  decoded : List Nat

/-- `maxsim_search`. -/
def Query.maxsimSearch (probes : List Nat) (threshold : Nat)
    (prefetcher : Option (Nat → Nat)) : RProg kind MaxsimSearch := do
  let (tuple, root) ← query.searchRoot probes
  let descent ← query.descend epsilon family tuple
    (fun i => i + 2 = tuple.heightOfRoot && threshold ≠ 0) probes root
  let (results, threshold) ← descent.state.foldlM (fun (results, threshold) cell => do
    let (results, jump) ← query.searchLeaf epsilon Distance.fromF32 tuple.isResidual
      prefetcher cell results
    pure (results, remainingThreshold threshold jump)) ([], threshold)
  let (estimation, decoded) ← query.estimateByThreshold family descent.it threshold
  pure ⟨results, estimation, descent.trace, decoded⟩

end

end VectorChord.Vchordrq
