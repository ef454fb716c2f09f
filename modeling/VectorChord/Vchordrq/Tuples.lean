import VectorChord.Paged.Program
import VectorChord.Rabitq.Packing
import VectorChord.Vchordrq.Operator

/-!
# Tuples of a vchordrq index

The values stored in page slots, the length of their serialized form, and the size
estimates that the tape writers use to decide how much fits on the current page.
-/

namespace VectorChord.Vchordrq

open Index Rabitq

/-- `u32::MAX`, the end of every chain of pages. -/
abbrev u32Max : Nat := Paged.invalidPage

/-- Special area of a page. -/
structure Opaque where
  next : Nat
  skip : Nat
  deriving DecidableEq, Repr

structure MetaTuple where
  dim : Nat
  heightOfRoot : Nat
  isResidual : Bool
  rerankInHeap : Bool
  indexedVectors : Option Nat
  cells : List Nat
  centroidsFirst : Nat
  vectorsFirst : List Nat
  freepagesFirst : Nat
  centroidPrefetch : List Nat
  centroidHead : Nat
  centroidNorm : Word
  first : Nat
  deriving DecidableEq, Repr

/-- A slice of a centroid: the last one carries the metadata, the others the slot of
the slice that follows. -/
inductive CentroidTuple (kind : VectorKind) where
  | v0 (metadata : kind.Metadata) (elements : List Nat)
  | v1 (head : Nat) (elements : List Nat)

namespace CentroidTuple

variable {kind : VectorKind}

def elements : CentroidTuple kind → List Nat
  | .v0 _ elements => elements
  | .v1 _ elements => elements

/-- `Ok(metadata)` or `Err(head)`. -/
def metadataOrHead : CentroidTuple kind → kind.Metadata ⊕ Nat
  | .v0 metadata _ => .inl metadata
  | .v1 head _ => .inr head

end CentroidTuple

/-- A slice of a stored vector. -/
inductive VectorTuple (kind : VectorKind) where
  | v0 (payload : Option Payload) (metadata : kind.Metadata) (elements : List Nat)
  | v1 (payload : Option Payload) (head : Nat) (elements : List Nat)

inductive DirectoryTuple where
  | v0 (elements : List Nat)
  | v1 (elements : List Nat)

def DirectoryTuple.elements : DirectoryTuple → List Nat
  | .v0 elements => elements
  | .v1 elements => elements

/-- What the last slice of a block of 32 branches says about the branches. -/
structure H1Header where
  metadata : Fin 4 → Fin 32 → Word
  delta : Fin 32 → Word
  prefetch : List (Fin 32 → Nat)
  head : Fin 32 → Nat
  norm : Fin 32 → Word
  first : Fin 32 → Nat
  len : Nat

inductive H1Tuple where
  | v0 (header : H1Header) (elements : List Row)
  | v1 (elements : List Row)

structure JumpTuple where
  centroidPrefetch : List Nat
  centroidHead : Nat
  directoryFirst : Nat
  frozenFirst : Nat
  appendableFirst : Nat
  tuples : Nat
  deriving DecidableEq, Repr

/-- What the last slice of a block of 32 entries says about the entries. -/
structure FrozenHeader where
  metadata : Fin 4 → Fin 32 → Word
  delta : Fin 32 → Word
  payload : Fin 32 → Option Payload
  prefetch : List (Fin 32 → Nat)
  head : Fin 32 → Nat

inductive FrozenTuple where
  | v0 (header : FrozenHeader) (elements : List Row)
  | v1 (elements : List Row)

structure AppendableTuple where
  metadata : Fin 4 → Word
  delta : Word
  prefetch : List Nat
  head : Nat
  elements : List Nat
  payload : Option Payload

/-- Any tuple of an index over vectors of the given kind.  The freepages tuple is the
first page of the free list. -/
inductive Tuple (kind : VectorKind) where
  | metaTuple (tuple : MetaTuple)
  | freepages (first : Nat)
  | centroid (tuple : CentroidTuple kind)
  | vector (tuple : VectorTuple kind)
  | directory (tuple : DirectoryTuple)
  | h1 (tuple : H1Tuple)
  | jump (tuple : JumpTuple)
  | frozen (tuple : FrozenTuple)
  | appendable (tuple : AppendableTuple)

namespace Tuple

variable {kind : VectorKind}

/-! A tuple read as another type than the one it was written as has no value. -/

def asMeta : Tuple kind → Option MetaTuple
  | .metaTuple tuple => some tuple
  | _ => none

def asFreepages : Tuple kind → Option Nat
  | .freepages first => some first
  | _ => none

def asCentroid : Tuple kind → Option (CentroidTuple kind)
  | .centroid tuple => some tuple
  | _ => none

def asDirectory : Tuple kind → Option DirectoryTuple
  | .directory tuple => some tuple
  | _ => none

def asH1 : Tuple kind → Option H1Tuple
  | .h1 tuple => some tuple
  | _ => none

def asJump : Tuple kind → Option JumpTuple
  | .jump tuple => some tuple
  | _ => none

def asFrozen : Tuple kind → Option FrozenTuple
  | .frozen tuple => some tuple
  | _ => none

def asAppendable : Tuple kind → Option AppendableTuple
  | .appendable tuple => some tuple
  | _ => none

/-- Length of `serialize`. -/
def size : Tuple kind → Nat
  | .metaTuple tuple =>
    8 + 56 + align8 (4 * tuple.cells.length) + align8 (4 * tuple.vectorsFirst.length) +
      align8 (4 * tuple.centroidPrefetch.length)
  | .freepages _ => 8
  | .centroid (.v0 _ elements) =>
    8 + 8 + align8 kind.metadataSize + align8 (kind.elementSize * elements.length)
  | .centroid (.v1 _ elements) => 8 + 8 + align8 (kind.elementSize * elements.length)
  | .vector (.v0 _ _ elements) =>
    8 + 16 + align8 kind.metadataSize + align8 (kind.elementSize * elements.length)
  | .vector (.v1 _ _ elements) => 8 + 16 + align8 (kind.elementSize * elements.length)
  | .directory (.v0 elements) => 8 + 8 + align8 (4 * elements.length)
  | .directory (.v1 elements) => 8 + 8 + align8 (4 * elements.length)
  | .h1 (.v0 header elements) =>
    8 + 976 + align8 (128 * header.prefetch.length) + align8 (16 * elements.length)
  | .h1 (.v1 elements) => 8 + 8 + align8 (16 * elements.length)
  | .jump tuple => 32 + align8 (4 * tuple.centroidPrefetch.length)
  | .frozen (.v0 header elements) =>
    8 + 968 + align8 (128 * header.prefetch.length) + align8 (16 * elements.length)
  | .frozen (.v1 elements) => 8 + 8 + align8 (16 * elements.length)
  | .appendable tuple =>
    40 + align8 (4 * tuple.prefetch.length) + align8 (8 * tuple.elements.length)

theorem size_aligned (tuple : Tuple kind) : align8 tuple.size = tuple.size ∧ 0 < tuple.size := by
  cases tuple with
  | freepages => simp [size, align8]
  | centroid tuple | vector tuple | directory tuple | h1 tuple | frozen tuple =>
    cases tuple <;> simp only [size, align8] <;> omega
  | metaTuple | jump | appendable => simp only [size, align8]; omega

instance : TupleSize (Tuple kind) where
  size := size
  positive tuple := (size_aligned tuple).2
  aligned tuple := (size_aligned tuple).1

end Tuple

/-! ## Size estimates -/

/-- `x & !(ALIGN - 1)`. -/
def alignDown (x : Int) : Int := x / 8 * 8

namespace DirectoryTuple

def estimateSize0 (elements : Nat) : Nat := 8 + 8 + align8 (4 * elements)

def fit1 (freespace : Nat) : Option Nat :=
  let rest := alignDown (alignDown (alignDown freespace - 8) - 8)
  if 0 ≤ rest then some (rest.toNat / 4) else none

end DirectoryTuple

/-- The common shape of `H1Tuple::fit_1` and `FrozenTuple::fit_1`. -/
def fitRows (prefetch freespace : Nat) : Option Nat :=
  let rest := alignDown
    (alignDown (alignDown (alignDown freespace - 8) - 8) - align8 (128 * prefetch))
  if 0 ≤ rest then some (rest.toNat / 16) else none

namespace H1Tuple

def estimateSize0 (prefetch elements : Nat) : Nat :=
  8 + 976 + align8 (128 * prefetch) + align8 (16 * elements)

def fit1 (prefetch freespace : Nat) : Option Nat := fitRows prefetch freespace

end H1Tuple

namespace FrozenTuple

def estimateSize0 (prefetch elements : Nat) : Nat :=
  8 + 968 + align8 (128 * prefetch) + align8 (16 * elements)

def fit1 (prefetch freespace : Nat) : Option Nat := fitRows prefetch freespace

end FrozenTuple

/-- A quantized vector on its way into a tape. -/
structure Branch (α : Type) where
  code : Code
  delta : Word
  prefetch : List Nat
  head : Nat
  norm : Word
  extra : α

end VectorChord.Vchordrq
