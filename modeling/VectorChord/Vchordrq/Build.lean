import VectorChord.Vchordrq.TapeWriter
import VectorChord.Vchordrq.Vectors

/-!
# Build

`build` writes the pages of an empty index for a tree of centroids: the meta page, the
head of the free list, the centroid tape, the vector tapes, three tapes and a jump page
for every cell of the lowest level, and an H1 tape for every cell above.
-/

namespace VectorChord.Vchordrq

open Index Paged Rabitq

/-- One level of the tree: a centroid for every cell and the positions of its children
in the level below. -/
structure Structure (kind : VectorKind) where
  centroids : List (Vector kind)
  children : List (List Nat)

/-- `VectorOptions` and `VchordrqIndexOptions` as far as they reach the pages. -/
structure Options where
  dim : Nat
  residualQuantization : Bool
  rerankInTable : Bool
  degreeOfParallelism : Nat
  deriving DecidableEq, Repr

variable (op : Operator) [PageSpace (Tuple op.kind)]

/-- The centroid tuple of a slice: the slice written first carries the metadata. -/
def centroidSlice {kind : VectorKind} (chain : kind.Metadata ⊕ Nat) (slice : List Nat) :
    Tuple kind :=
  match chain with
  | .inl metadata => .centroid (.v0 metadata slice)
  | .inr head => .centroid (.v1 head slice)

/-- Write a centroid and return its key. -/
def buildCentroid (vector : Vector op.kind) (tape : TapeWriter op.kind) :
    RProg op.kind ((List Nat × Nat) × TapeWriter op.kind) := do
  let (chain, prefetch, tape) ← (split op.kind vector.elements).reverse.foldlM
    (fun (chain, prefetch, tape) slice => do
      let ((id, head), tape, _) ← tape.push extendIndex (centroidSlice chain slice) ()
      pure (Sum.inr head, id :: prefetch, tape))
    (Sum.inl vector.metadata, [], tape)
  match chain with
  | .inr head => pure ((prefetch, head), tape)
  | .inl _ => Prog.panic

/-- Write the centroids of one level. -/
def buildCentroids (level : Structure op.kind) (tape : TapeWriter op.kind) :
    RProg op.kind (List (List Nat × Nat) × TapeWriter op.kind) :=
  (List.range level.children.length).foldlM (fun (pointers, tape) j => do
    let vector ← Prog.expect level.centroids[j]?
    let (pointer, tape) ← buildCentroid op vector tape
    pure (pointers ++ [pointer], tape)) ([], tape)

/-- Write an empty leaf and return its jump page. -/
def buildLeaf (pointer : List Nat × Nat) : RProg op.kind Nat := do
  let (frozen, _) ← TapeWriter.create extendIndex false ()
  let (appendable, _) ← TapeWriter.create extendIndex false ()
  let frozenFirst ← frozen.close
  let (directory, _) ← TapeWriter.create extendIndex false ()
  let (directory, _) ← directoryPush extendIndex [frozenFirst] directory ()
  let (jump, _) ← TapeWriter.create extendIndex false ()
  let directoryFirst ← directory.close
  let appendableFirst ← appendable.close
  let (_, jump, _) ← jump.push extendIndex (.jump {
    directoryFirst := directoryFirst
    frozenFirst := frozenFirst
    appendableFirst := appendableFirst
    centroidPrefetch := pointer.1
    centroidHead := pointer.2
    tuples := 0 }) ()
  jump.close

/-- Write the H1 tape of a cell and return its first page. -/
def buildNode (options : Options) (centroid : Vector op.kind)
    (children : List (Vector op.kind × (List Nat × Nat) × Nat)) : RProg op.kind Nat := do
  let (tape, _) ← TapeWriter.create extendIndex false ()
  let (writer, _) ← children.foldlM (fun (writer, _) (vector, pointer, first) =>
    let (code, delta) := op.build vector
      (if options.residualQuantization then some (centroid.elements, centroid.metadata)
        else none)
    h1Push extendIndex writer {
      code := code
      delta := delta
      prefetch := pointer.1
      head := pointer.2
      extra := first
      norm := op.norm vector } ())
    ((⟨tape, [], count op.kind options.dim⟩ : BlockWriter op.kind Nat), ())
  let (tape, _) ← h1Flush extendIndex writer ()
  tape.close

/-- The level below the one being written: its centroids, their keys, and the first
page of each of its cells. -/
structure Below (kind : VectorKind) where
  centroids : List (Vector kind)
  pointers : List (List Nat × Nat)
  firsts : List Nat

/-- Child number `child` of a cell. -/
def Below.child {kind : VectorKind} (below : Below kind) (child : Nat) :
    Option (Vector kind × (List Nat × Nat) × Nat) := do
  let vector ← below.centroids[child]?
  let pointer ← below.pointers[child]?
  let first ← below.firsts[child]?
  pure (vector, pointer, first)

/-- Write one cell of a level; `below` is absent for the lowest one. -/
def placeCell (options : Options) (level : Structure op.kind) (pointers : List (List Nat × Nat))
    (below : Option (Below op.kind)) : List Nat × Nat → RProg op.kind Nat
  | (children, j) =>
    match below with
    | none => do
      let pointer ← Prog.expect pointers[j]?
      buildLeaf op pointer
    | some below => do
      let centroid ← Prog.expect level.centroids[j]?
      let children ← Prog.expect (children.mapM below.child)
      buildNode op options centroid children

/-- Write the cells of one level. -/
def buildLevel (options : Options) (level : Structure op.kind)
    (pointers : List (List Nat × Nat)) (below : Option (Below op.kind)) :
    RProg op.kind (Below op.kind) := do
  let firsts ← level.children.zipIdx.foldlM (fun firsts item => do
    let first ← placeCell op options level pointers below item
    pure (firsts ++ [first])) []
  pure ⟨level.centroids, pointers, firsts⟩

/-- The vector tapes, empty. -/
def buildVectors (degree : Nat) : RProg op.kind (List Nat) :=
  (List.range degree).foldlM (fun firsts _ => do
    let (tape, _) ← TapeWriter.create extendIndex true ()
    let first ← tape.close
    pure (firsts ++ [first])) []

/-- `build`, with the keys of the centroids of every level. -/
def buildKeys (options : Options) (structures : List (Structure op.kind)) :
    RProg op.kind (List (List (List Nat × Nat))) := do
  let (metaTape, _) ← TapeWriter.create extendIndex false ()
  if metaTape.first ≠ 0 then Prog.panic
  else do
    let (freepages, _) ← TapeWriter.create extendIndex false ()
    let (_, freepages, _) ← freepages.push extendIndex (.freepages u32Max) ()
    let (centroids, _) ← TapeWriter.create extendIndex false ()
    let vectors ← buildVectors op options.degreeOfParallelism
    let (pointers, centroids) ← structures.foldlM (fun (pointers, tape) level => do
      let (keys, tape) ← buildCentroids op level tape
      pure (pointers ++ [keys], tape)) ([], centroids)
    let below ← (structures.zip pointers).foldlM (fun below (level, keys) => do
      let below ← buildLevel op options level keys below
      pure (some below)) none
    let below ← Prog.expect below
    let pointer ← Prog.expect below.pointers[0]?
    let root ← Prog.expect below.centroids[0]?
    let first ← Prog.expect below.firsts[0]?
    let (_, metaTape, _) ← metaTape.push extendIndex (.metaTuple {
      dim := options.dim
      heightOfRoot := structures.length
      isResidual := options.residualQuantization
      rerankInHeap := options.rerankInTable
      indexedVectors := some 0
      centroidsFirst := centroids.first
      vectorsFirst := vectors
      centroidPrefetch := pointer.1
      centroidHead := pointer.2
      centroidNorm := op.norm root
      first := first
      freepagesFirst := freepages.first
      cells := structures.map fun level => level.children.length }) ()
    let _ ← centroids.close
    let _ ← freepages.close
    let _ ← metaTape.close
    pure pointers

/-- `build`. -/
def build (options : Options) (structures : List (Structure op.kind)) :
    RProg op.kind Unit := do
  let _ ← buildKeys op options structures
  pure ()

end VectorChord.Vchordrq
