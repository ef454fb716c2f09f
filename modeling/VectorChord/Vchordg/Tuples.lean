import VectorChord.Paged.Program
import VectorChord.Vchordrq.Operator

/-!
# Tuples of a vchordg index

A graph index stores every vertex in a vertex tuple and its vector in a row of vector
tuples, one for each slice of the vector.  The last one of the row carries the metadata
and the out-edges of the vertex.
-/

namespace VectorChord.Vchordg

open Index Paged

/-! The kinds of vectors are those of the other index type. -/

export Vchordrq (Word Payload VectorKind Vector Stored chunks)

/-- `u32::MAX`, the end of every chain of pages. -/
abbrev u32Max : Nat := Paged.invalidPage

/-- A page and a slot on it. -/
abbrev Id := Nat × Nat

/-- `Distance`: an `f32` as an integer of the same order. -/
abbrev Distance := Int

/-- Special area of a page: the next page of its chain, and for a vertex page the first
page with vectors of its vertices. -/
structure Opaque where
  next : Nat
  link : Nat
  deriving DecidableEq, Repr

structure MetaTuple where
  dim : Nat
  bits : Nat
  m : Nat
  alpha : List Word
  efConstruction : Nat
  beamConstruction : Nat
  start : Option Id
  skip : Nat
  deriving DecidableEq, Repr

/-- A packed code: three floats and the words of the code. -/
structure Code where
  metadata : Word × Word × Word
  elements : List Nat
  deriving DecidableEq, Repr

structure VertexTuple where
  code : Code
  payload : Option Payload
  pointers : List Id
  deriving DecidableEq, Repr

/-- A slice of a vector: the last one, or the one with the given index. -/
inductive VectorTuple (kind : VectorKind) where
  | v0 (payload : Option Payload) (metadata : kind.Metadata) (elements : List Nat)
      (neighbours : List (Option (Id × Distance))) (version : Nat)
  | v1 (payload : Option Payload) (elements : List Nat) (index : Nat)

/-- Any tuple of an index over vectors of the given kind. -/
inductive Tuple (kind : VectorKind) where
  | metaTuple (tuple : MetaTuple)
  | vertex (tuple : VertexTuple)
  | vector (tuple : VectorTuple kind)

namespace Tuple

variable {kind : VectorKind}

/-! A tuple read as another type than the one it was written as has no value. -/

def asMeta : Tuple kind → Option MetaTuple
  | .metaTuple tuple => some tuple
  | _ => none

def asVertex : Tuple kind → Option VertexTuple
  | .vertex tuple => some tuple
  | _ => none

def asVector : Tuple kind → Option (VectorTuple kind)
  | .vector tuple => some tuple
  | _ => none

/-- Length of `serialize`.  Both forms of a vector tuple leave room for the longer
header. -/
def size : Tuple kind → Nat
  | .metaTuple tuple => 8 + 48 + align8 (4 * tuple.alpha.length)
  | .vertex tuple =>
    32 + align8 (8 * tuple.code.elements.length) + align8 (8 * tuple.pointers.length)
  | .vector (.v0 _ _ elements neighbours _) =>
    8 + 24 + align8 (kind.elementSize * elements.length) + align8 kind.metadataSize +
      align8 (12 * neighbours.length)
  | .vector (.v1 _ elements _) => 8 + 24 + align8 (kind.elementSize * elements.length)

theorem size_aligned (tuple : Tuple kind) : align8 tuple.size = tuple.size ∧ 0 < tuple.size := by
  cases tuple with
  | metaTuple | vertex => simp only [size, align8]; omega
  | vector tuple => cases tuple <;> simp only [size, align8] <;> omega

instance : TupleSize (Tuple kind) where
  size := size
  positive tuple := (size_aligned tuple).2
  aligned tuple := (size_aligned tuple).1

end Tuple

abbrev GPage (kind : VectorKind) := Page Opaque (Tuple kind)

/-- Programs over the pages of an index.  Their latches carry no tags. -/
abbrev GProg (kind : VectorKind) := Prog (GPage kind) Unit

/-- A bound on the iterations of every loop.  A place has 48 bits, so there are fewer
tuples than that. -/
def iterations : Nat := 2 ^ 64

variable {kind : VectorKind}

/-- The tuple in slot `i`, of the expected type. -/
def getTuple {α : Type} (as : Tuple kind → Option α) (page : GPage kind) (i : Nat) :
    GProg kind α :=
  Prog.expect ((page.get i).bind as)

/-- The page with its `next` link replaced. -/
def setNext (page : GPage kind) (next : Nat) : GPage kind :=
  { page with special := { page.special with next := next } }

/-! ## Vectors -/

/-- `Vector::split`: the leading slices, and the last one, which leaves room for the
out-edges behind it. -/
def split (kind : VectorKind) (m : Nat) (elements : List Nat) : List (List Nat) × List Nat :=
  let tailing := align8 (12 * m)
  let last := (8000 - tailing) / kind.elementSize
  if elements.length ≤ last then ([], elements)
  else
    (chunks (8000 / kind.elementSize) (elements.take (elements.length - last)),
      elements.drop (elements.length - last))

/-- An operator: the code of a vector, the estimated distance of a query to a code, the
distance of two vectors, and the comparison `u.to_f32() < alpha * v.to_f32()` of
distances. -/
structure Operator where
  kind : VectorKind
  isL2s : Bool
  code : (bits : Nat) → Vector kind → Code
  process : (bits dim : Nat) → Code → Vector kind → Distance
  access : Vector kind → Stored kind → Distance
  distance : Stored kind → Stored kind → Distance
  closer : (alpha : Word) → Distance → Distance → Bool
  /-- The bit pattern of `1.0`. -/
  one : Word

end VectorChord.Vchordg
