import VectorChord.Vchordg.Tuples

/-!
# Reading vectors

The slices of a vector lie on several pages and are read one latch at a time.  Between
two of them a slot can be freed and filled again; what the reader checks is the form of
the tuple and the index of the slice.
-/

namespace VectorChord.Vchordg

open Index Paged

variable {kind : VectorKind}

/-- What `vectors::read` returns, with the vector that was read for the output of the
accessor.  `neighbours` are those that `copy_all` copies. -/
structure Read (kind : VectorKind) where
  vector : Stored kind
  neighbours : List (Id × Distance)
  payload : Option Payload
  version : Nat

/-- `copy_all`. -/
def copyAll (neighbours : List (Option (Id × Distance))) : List (Id × Distance) :=
  neighbours.filterMap id

/-- `copy_outs`. -/
def Read.outs (read : Read kind) : List Id := read.neighbours.map Prod.fst

/-- Read the tuple at a place, of the expected type; a freed slot has none. -/
def readAs {α : Type} (as : Tuple kind → Option α) (u : Id) : GProg kind (Option α) := do
  let page ← Prog.read () u.1
  match page.get u.2 with
  | none => do
    -- the link is broken
    Prog.dropRead u.1
    pure none
  | some tuple => do
    let value ← Prog.expect (as tuple)
    Prog.dropRead u.1
    pure (some value)

/-- The vertex tuple at a place. -/
def readVertex (u : Id) : GProg kind (Option VertexTuple) := readAs Tuple.asVertex u

/-- The vector tuple that a pointer leads to. -/
def readVector (pointer : Id) : GProg kind (Option (VectorTuple kind)) :=
  readAs Tuple.asVector pointer

namespace LAccess

/-! `LAccess` compares a vector of `goal` elements with slices as they are read. -/

/-- The elements compared so far and those of one more slice; the goal must have as many. -/
def push (goal : Nat) (elements slice : List Nat) : Option (List Nat) :=
  if elements.length + slice.length ≤ goal then some (elements ++ slice) else none

/-- The vector that was read; nothing of the goal may be left over. -/
def finish (goal : Nat) (elements : List Nat) (metadata : kind.Metadata) :
    Option (Stored kind) :=
  if elements.length = goal then some (elements, metadata) else none

end LAccess

/-- `vectors::read` from the slice with the given index on; `elements` are those of the
slices before.  A tuple that is missing, of the other form or of another index is a
broken link. -/
def readSlices (goal : Nat) : (index : Nat) → (pointers : List Id) → (elements : List Nat) →
    GProg kind (Option (Read kind))
  | _, [], _ => Prog.panic
  | _, [pointer], elements => do
    match ← readVector pointer with
    | some (.v0 payload metadata last neighbours version) => do
      let elements ← Prog.expect (LAccess.push goal elements last)
      let vector ← Prog.expect (LAccess.finish goal elements metadata)
      pure (some ⟨vector, copyAll neighbours, payload, version⟩)
    | _ => pure none
  | index, pointer :: rest, elements => do
    match ← readVector pointer with
    | some (.v1 _ slice index') =>
      if index' ≠ index then pure none
      else do
        let elements ← Prog.expect (LAccess.push goal elements slice)
        readSlices goal (index + 1) rest elements
    | _ => pure none

/-- `vectors::read` with the accessor `LAccess` of a vector of `goal` elements. -/
def vectorsRead (goal : Nat) (pointers : List Id) : GProg kind (Option (Read kind)) :=
  readSlices goal 0 pointers []

end VectorChord.Vchordg
