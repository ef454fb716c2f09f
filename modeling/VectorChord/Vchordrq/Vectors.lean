import VectorChord.Vchordrq.Tape

/-!
# Sliced vectors

Centroids and full-precision vectors are stored as chains of slices.  The slices are
written back to front, so that each one can name the slot of the slice behind it; the
pages of the slices are kept apart, in the prefetch list of whoever refers to the
vector.
-/

namespace VectorChord.Vchordrq

open Index Paged Rabitq

variable {kind : VectorKind}

/-- `centroids::read`; `elements` are those of the slices before. -/
def centroidsRead : (prefetch : List Nat) → (head : Nat) → (elements : List Nat) →
    RProg kind (Stored kind)
  | [], _, _ => Prog.panic
  | id :: rest, head, elements => do
    let page ← Prog.read .plain id
    let tuple ← getTuple Tuple.asCentroid page head
    Prog.dropRead id
    match tuple.metadataOrHead with
    | .inr head => centroidsRead rest head (elements ++ tuple.elements)
    | .inl metadata =>
      if rest = [] then pure (elements ++ tuple.elements, metadata) else Prog.panic

/-- The vector tuple of a slice: the slice written first carries the metadata. -/
def vectorSlice (payload : Payload) (chain : kind.Metadata ⊕ Nat) (slice : List Nat) :
    Tuple kind :=
  match chain with
  | .inl metadata => .vector (.v0 (some payload) metadata slice)
  | .inr head => .vector (.v1 (some payload) head slice)

section
variable [PageSpace (Tuple kind)]

/-- Store one slice, on any page with enough free space or at the end of the tape. -/
def appendSlice (first : Nat) (tuple : Tuple kind) (skipSearch : Bool) :
    RProg kind (Nat × Nat) := do
  let found ←
    if skipSearch then pure none
    else Prog.search .plain fun page => tuple.size ≤ page.freespace
  match found with
  | some (id, page) => do
    let (page, i) ← Prog.expect (page.alloc tuple)
    Prog.put id page
    Prog.dropWrite id
    pure (id, i)
  | none => append .plain first tuple true none

/-- `vectors::append`: store a vector and return its key, the pages of its slices and
the slot of the first one. -/
def vectorsAppend (first : Nat) (vector : Vector kind) (payload : Payload)
    (skipSearch : Bool) : RProg kind (List Nat × Nat) := do
  let (chain, prefetch) ← (split kind vector.elements).reverse.foldlM
    (fun (chain, prefetch) slice => do
      let (id, head) ← appendSlice first (vectorSlice payload chain slice) skipSearch
      pure (Sum.inr head, id :: prefetch))
    (Sum.inl vector.metadata, [])
  match chain with
  | .inr head => pure (prefetch, head)
  | .inl _ => Prog.panic

end

/-- The appendable tuple of a new entry. -/
def appendableOf (code : Code) (delta : Word) (payload : Payload) (key : List Nat × Nat) :
    AppendableTuple where
  metadata := ![code.metadata.disU2, code.metadata.factorCnt, code.metadata.factorIp,
    code.metadata.factorErr]
  delta := delta
  payload := some payload
  prefetch := key.1
  head := key.2
  elements := packCode code.signs

end VectorChord.Vchordrq
