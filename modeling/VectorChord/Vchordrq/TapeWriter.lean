import VectorChord.Vchordrq.Tape

/-!
# Tape writers

A tape writer keeps the last page of a new tape latched and moves on to a fresh page
when a tuple does not fit any more.  Where fresh pages come from is a parameter:
`build` extends the relation, `maintain` first reuses the pages it has retired.

The directory, H1 and frozen writers cut a block of elements into slices: as long as
the rest does not fit together with its header, they fill the page with a header-less
slice and go on.
-/

namespace VectorChord.Vchordrq

open Index Paged Rabitq

variable {kind : VectorKind} {σ ε : Type}

/-- Source of clear, exclusively latched pages, with a state of its own. -/
abbrev Extender (kind : VectorKind) (σ : Type) := Bool → σ → RProg kind (Nat × σ)

/-- `index.extend` itself. -/
def extendIndex : Extender kind Unit :=
  fun tracking state => do
  let id ← Prog.extend .plain (Page.clear .last) tracking
  pure (id, state)

/-- `TapeWriter`.  `page` is the content of the latched page `head`. -/
structure TapeWriter (kind : VectorKind) where
  head : Nat
  page : RPage kind
  first : Nat
  tracking : Bool

namespace TapeWriter

variable (extend : Extender kind σ)

def create (tracking : Bool) (state : σ) : RProg kind (TapeWriter kind × σ) := do
  let (id, state) ← extend tracking state
  let page := setSkip (Page.clear .last) id
  Prog.put id page
  pure (⟨id, page, id, tracking⟩, state)

/-- Link a fresh page behind the current one and go on there. -/
def moveOn (tape : TapeWriter kind) (state : σ) : RProg kind (TapeWriter kind × σ) := do
  let (next, state) ← extend tape.tracking state
  Prog.put tape.head (setNext tape.page next)
  Prog.dropWrite tape.head
  pure ({ tape with head := next, page := Page.clear .last }, state)

def tapeMove (tape : TapeWriter kind) (state : σ) : RProg kind (TapeWriter kind × σ) :=
  if tape.page.len = 0 then Prog.panic else tape.moveOn extend state

variable [PageSpace (Tuple kind)]

def freespace (tape : TapeWriter kind) : Nat := tape.page.freespace

def tapePut (tape : TapeWriter kind) (tuple : Tuple kind) :
    RProg kind ((Nat × Nat) × TapeWriter kind) := do
  let (page, i) ← Prog.expect (tape.page.alloc tuple)
  Prog.put tape.head page
  pure ((tape.head, i), { tape with page := page })

def push (tape : TapeWriter kind) (tuple : Tuple kind) (state : σ) :
    RProg kind ((Nat × Nat) × TapeWriter kind × σ) :=
  match tape.page.alloc tuple with
  | some (page, i) => do
    Prog.put tape.head page
    pure ((tape.head, i), { tape with page := page }, state)
  | none => do
    let (tape, state) ← tape.moveOn extend state
    let (key, tape) ← tape.tapePut tuple
    pure (key, tape, state)

/-- Release the last page. -/
def close (tape : TapeWriter kind) : RProg kind Nat := do
  Prog.dropWrite tape.head
  pure tape.first

/-- The loop of the splitting writers: `estimate` is the size of the closing tuple
`closing rest`, `fit` the number of elements of a slice `slice part` that fills the
free space. -/
def putSplit (estimate : Nat → Nat) (fit : Nat → Option Nat)
    (closing slice : List ε → Tuple kind) (elements : List ε) (tape : TapeWriter kind)
    (state : σ) : RProg kind (TapeWriter kind × σ) :=
  Prog.loop (fun (remain, tape, state) =>
    if estimate remain.length ≤ tape.freespace then do
      let (_, tape) ← tape.tapePut (closing remain)
      pure (.inr (tape, state))
    else
      match fit tape.freespace with
      | some w => do
        let (_, tape) ← tape.tapePut (slice (remain.take (min w remain.length)))
        pure (.inl (remain.drop (min w remain.length), tape, state))
      | none => do
        let (tape, state) ← tape.tapeMove extend state
        pure (.inl (remain, tape, state)))
    iterations (elements, tape, state)

end TapeWriter

/-! ## Directory -/

/-- `DirectoryTapeWriter::push`. -/
def directoryPush [PageSpace (Tuple kind)] (extend : Extender kind σ) (ids : List Nat)
    (tape : TapeWriter kind) (state : σ) : RProg kind (TapeWriter kind × σ) :=
  tape.putSplit extend DirectoryTuple.estimateSize0 DirectoryTuple.fit1
    (fun elements => .directory (.v0 elements)) (fun elements => .directory (.v1 elements))
    ids state

/-! ## Blocks of 32 branches -/

/-- Arrays of 32 over a list whose length is a multiple of 32. -/
def asChunks32 (flattened : List Nat) : List (Fin 32 → Nat) :=
  (List.range (flattened.length / 32)).map fun i j => flattened.getD (i * 32 + j) 0

/-- Prefetch lists of one length, written behind each other as arrays of 32. -/
def fixGood (slices : List (List Nat)) : Option (List (Fin 32 → Nat)) :=
  if slices.length ≠ 32 then none
  else if slices.all fun slice => slice.length = (slices.headD []).length then
    some (asChunks32 slices.flatten)
  else none

/-- The same for at most 32 lists; missing ones are filled with `u32::MAX`. -/
def fixBad (slices : List (List Nat)) : Option (List (Fin 32 → Nat)) :=
  if 32 < slices.length then none
  else if slices.all fun slice => slice.length = (slices.headD []).length then
    let filler := List.replicate (slices.headD []).length u32Max
    some (asChunks32 (slices ++ List.replicate (32 - slices.length) filler).flatten)
  else none

/-- The four code words of a block. -/
def blockMetadata {α : Type} (chunk : List (Branch α)) : Fin 4 → Fin 32 → Word :=
  ![anyPack 0 (chunk.map fun x => x.code.metadata.disU2),
    anyPack 0 (chunk.map fun x => x.code.metadata.factorCnt),
    anyPack 0 (chunk.map fun x => x.code.metadata.factorIp),
    anyPack 0 (chunk.map fun x => x.code.metadata.factorErr)]

/-- The rows of a block. -/
def blockRows {α : Type} (chunk : List (Branch α)) : Option (List Row) :=
  paddingPack (chunk.map fun x => packToU4 x.code.signs)

def h1Header (chunk : List (Branch Nat)) (prefetch : List (Fin 32 → Nat)) : H1Header where
  metadata := blockMetadata chunk
  delta := anyPack 0 (chunk.map fun x => x.delta)
  prefetch := prefetch
  head := anyPack 0 (chunk.map fun x => x.head)
  norm := anyPack 0 (chunk.map fun x => x.norm)
  first := anyPack 0 (chunk.map fun x => x.extra)
  len := chunk.length

def frozenHeader (chunk : List (Branch Payload)) (prefetch : List (Fin 32 → Nat)) :
    FrozenHeader where
  metadata := blockMetadata chunk
  delta := anyPack 0 (chunk.map fun x => x.delta)
  payload := anyPack none (chunk.map fun x => some x.extra)
  prefetch := prefetch
  head := anyPack 0 (chunk.map fun x => x.head)

/-- A writer of blocks: the tape, the branches of the unfinished block, and the
length of a prefetch list that the size estimates assume. -/
structure BlockWriter (kind : VectorKind) (α : Type) where
  tape : TapeWriter kind
  branches : List (Branch α)
  prefetch : Nat

section
variable [PageSpace (Tuple kind)] (extend : Extender kind σ)

/-- Write the H1 block of `chunk`. -/
def h1Block (fix : List (List Nat) → Option (List (Fin 32 → Nat)))
    (chunk : List (Branch Nat)) (prefetch : Nat) (tape : TapeWriter kind) (state : σ) :
    RProg kind (TapeWriter kind × σ) := do
  let rows ← Prog.expect (blockRows chunk)
  let arrays ← Prog.expect (fix (chunk.map fun x => x.prefetch))
  tape.putSplit extend (H1Tuple.estimateSize0 prefetch) (H1Tuple.fit1 prefetch)
    (fun rows => .h1 (.v0 (h1Header chunk arrays) rows)) (fun rows => .h1 (.v1 rows))
    rows state

/-- `H1TapeWriter::push`. -/
def h1Push (writer : BlockWriter kind Nat) (branch : Branch Nat) (state : σ) :
    RProg kind (BlockWriter kind Nat × σ) :=
  let branches := writer.branches ++ [branch]
  if branches.length = 32 then do
    let (tape, state) ← h1Block extend fixGood branches writer.prefetch writer.tape state
    pure ({ writer with tape := tape, branches := [] }, state)
  else pure ({ writer with branches := branches }, state)

/-- `H1TapeWriter::flush`. -/
def h1Flush (writer : BlockWriter kind Nat) (state : σ) :
    RProg kind (TapeWriter kind × σ) :=
  if writer.branches = [] then pure (writer.tape, state)
  else h1Block extend fixBad writer.branches writer.prefetch writer.tape state

/-- Write the frozen block of `chunk`. -/
def frozenBlock (chunk : List (Branch Payload)) (prefetch : Nat) (tape : TapeWriter kind)
    (state : σ) : RProg kind (TapeWriter kind × σ) := do
  let rows ← Prog.expect (blockRows chunk)
  let arrays ← Prog.expect (fixGood (chunk.map fun x => x.prefetch))
  tape.putSplit extend (FrozenTuple.estimateSize0 prefetch) (FrozenTuple.fit1 prefetch)
    (fun rows => .frozen (.v0 (frozenHeader chunk arrays) rows))
    (fun rows => .frozen (.v1 rows)) rows state

/-- `FrozenTapeWriter::push`. -/
def frozenPush (writer : BlockWriter kind Payload) (branch : Branch Payload) (state : σ) :
    RProg kind (BlockWriter kind Payload × σ) :=
  let branches := writer.branches ++ [branch]
  if branches.length = 32 then do
    let (tape, state) ← frozenBlock extend branches writer.prefetch writer.tape state
    pure ({ writer with tape := tape, branches := [] }, state)
  else pure ({ writer with branches := branches }, state)

end

end VectorChord.Vchordrq
