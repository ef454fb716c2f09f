import VectorChord.Vchordrq.Tuples

/-!
# Tapes

A tape is a chain of pages linked by `next`.  This module has the readers of the
tapes of an index, the free list, and `append`, which adds a tuple to the last page
of a tape that other processes may be extending at the same time.

Loops over pages carry a bound on their iterations.  There are fewer pages than
`iterations`, so a walk that does not come back to a page stays below it.
-/

namespace VectorChord.Vchordrq

open Index Paged Rabitq

/-- The three tapes of a leaf. -/
inductive TapeKind where
  | directory
  | frozen
  | appendable
  deriving DecidableEq, Repr

/-- What a latch is taken for: walking a tape of the leaf whose jump page is given,
or anything else. -/
inductive Tag where
  | plain
  | leaf (jump : Nat) (tape : TapeKind)
  deriving DecidableEq, Repr

abbrev RPage (kind : VectorKind) := Page Opaque (Tuple kind)

/-- Programs over the pages of an index. -/
abbrev RProg (kind : VectorKind) := Prog (RPage kind) Tag

def iterations : Nat := 2 ^ 64

variable {kind : VectorKind} {σ : Type}

/-- The links of a page that is the last one of its tape. -/
def Opaque.last : Opaque := ⟨u32Max, u32Max⟩

/-- The page with its `next` link replaced. -/
def setNext (page : RPage kind) (next : Nat) : RPage kind :=
  { page with special := { page.special with next := next } }

/-- The page with its `skip` link replaced. -/
def setSkip (page : RPage kind) (skip : Nat) : RPage kind :=
  { page with special := { page.special with skip := skip } }

/-- The tuple in slot `i`, of the expected type. -/
def getTuple {α : Type} (as : Tuple kind → Option α) (page : RPage kind) (i : Nat) :
    RProg kind α :=
  Prog.expect ((page.get i).bind as)

/-! ## Readers -/

/-- `for guard in by_next(index, first) { body }`. -/
def forNext (tag : Tag) (first : Nat) (state : σ)
    (body : σ → Nat → RPage kind → RProg kind σ) : RProg kind σ :=
  Prog.loop (fun (current, state) =>
    if current = u32Max then pure (.inr state)
    else do
      let page ← Prog.read tag current
      let state ← body state current page
      Prog.dropRead current
      pure (.inl (page.special.next, state)))
    iterations (first, state)

/-- State of `read_directory_tape`: the ids of the current tuple that are still to be
returned, the page under the latch with the slots behind that tuple, the page to
latch after it, and the pages latched so far. -/
structure DirectoryState (kind : VectorKind) where
  slice : List Nat
  now : Option (Nat × List (Option (Tuple kind)))
  current : Nat
  trace : List Nat

namespace DirectoryState

/-- Release the page under the latch. -/
def close (state : DirectoryState kind) : RProg kind Unit :=
  match state.now with
  | some (id, _) => Prog.dropRead id
  | none => pure ()

/-- Latch the next directory page and release the one before. -/
def advance (tag : Tag) (state : DirectoryState kind) :
    RProg kind (DirectoryState kind) := do
  let next ←
    if state.current = u32Max then pure { state with now := none }
    else do
      let page ← Prog.read tag state.current
      pure { state with
        now := some (state.current, page.slots)
        current := page.special.next
        trace := state.trace ++ [state.current] }
  state.close
  pure next

/-- The first tuple with ids in the given slots, and the slots behind it. -/
def scanSlots : List (Option (Tuple kind)) →
    RProg kind (Option (List Nat × List (Option (Tuple kind))))
  | [] => pure none
  | slot :: rest => do
    let tuple ← Prog.expect (slot.bind Tuple.asDirectory)
    match tuple.elements with
    | [] => scanSlots rest
    | slice => pure (some (slice, rest))

def init (tag : Tag) (first : Nat) : RProg kind (DirectoryState kind) :=
  advance tag ⟨[], none, first, []⟩

/-- The next id of the directory. -/
def next (tag : Tag) (state : DirectoryState kind) :
    RProg kind (Option Nat × DirectoryState kind) :=
  Prog.loop (fun state =>
    match state.slice with
    | first :: more => pure (.inr (some first, { state with slice := more }))
    | [] =>
      match state.now with
      | none => pure (.inr (none, state))
      | some (id, slots) => do
        match ← scanSlots slots with
        | some (slice, rest) =>
          pure (.inl { state with slice := slice, now := some (id, rest) })
        | none => do
          let state ← advance tag state
          pure (.inl state))
    iterations state

/-- Take up to `n` more ids from the directory into the window of a prefetcher. -/
def fill (tag : Tag) : Nat → DirectoryState kind → List Nat →
    RProg kind (DirectoryState kind × List Nat)
  | 0, state, window => pure (state, window)
  | n + 1, state, window => do
    let (item, state) ← state.next tag
    match item with
    | none => pure (state, window)
    | some id => fill tag n state (window ++ [id])

end DirectoryState

/-- `for guard in by_directory(prefetcher, read_directory_tape(by_next(first)))`.  The
prefetcher looks ahead as it likes: before its `k`-th answer it tries to have
`ahead k` ids in its window, and at least one.  Also returns the pages of the
directory. -/
def forDirectory (ahead : Nat → Nat) (directoryTag tag : Tag) (first : Nat) (state : σ)
    (body : σ → Nat → RPage kind → RProg kind σ) : RProg kind (σ × List Nat) := do
  let directory ← DirectoryState.init directoryTag first
  Prog.loop (fun (k, directory, window, state) => do
    let (directory, window) ←
      DirectoryState.fill directoryTag (max 1 (ahead k) - window.length) directory window
    match window with
    | [] => pure (.inr (state, directory.trace))
    | id :: window => do
      let page ← Prog.read tag id
      let state ← body state id page
      Prog.dropRead id
      pure (.inl (k + 1, directory, window, state)))
    iterations (0, directory, [], state)

/-- Four code words of lane `j`. -/
def laneMetadata (metadata : Fin 4 → Fin 32 → Word) (j : Fin 32) : CodeMetadata :=
  ⟨metadata 0 j, metadata 1 j, metadata 2 j, metadata 3 j⟩

/-- `&prefetch.as_flattened()[j * step..][..step]`. -/
def lanePrefetch (prefetch : List (Fin 32 → Nat)) (j : Fin 32) : List Nat :=
  ((prefetch.flatMap List.ofFn).drop (j * prefetch.length)).take prefetch.length

/-- A child as `read_h1_tape` delivers it. -/
structure Child where
  first : Nat
  norm : Word
  head : Nat
  prefetch : List Nat
  deriving DecidableEq, Repr

/-- The children of a block. -/
def H1Header.children (header : H1Header) : List Child :=
  ((List.finRange 32).filter fun j => j.val < header.len).map fun j =>
    ⟨header.first j, header.norm j, header.head j, lanePrefetch header.prefetch j⟩

/-- `read_h1_tape` over one page. -/
def readH1Page (children : List Child) (page : RPage kind) : RProg kind (List Child) :=
  page.slots.foldlM (fun children slot => do
    match ← Prog.expect (slot.bind Tuple.asH1) with
    | .v0 header _ => pure (children ++ header.children)
    | .v1 _ => pure children) children

/-- `read_h1_tape(by_next(first))`. -/
def readH1Tape (first : Nat) : RProg kind (List Child) :=
  forNext .plain first [] fun children _ page => readH1Page children page

/-- The entry in lane `j` of a block whose rows are `elements`. -/
def FrozenHeader.branch (header : FrozenHeader) (elements : List Row) (j : Fin 32)
    (payload : Payload) : Branch Payload where
  code := ⟨laneMetadata header.metadata j, unpackWords 4 (unpack elements j)⟩
  delta := header.delta j
  prefetch := lanePrefetch header.prefetch j
  head := header.head j
  norm := 0
  extra := payload

/-- `freepages::alloc`: take the first page of the free list, still latched. -/
def freepagesAlloc (freepagesFirst : Nat) : RProg kind (Option Nat) := do
  let head ← Prog.write .plain freepagesFirst false
  let id ← getTuple Tuple.asFreepages head 1
  if id ≠ u32Max then do
    let page ← Prog.write .plain id false
    Prog.put freepagesFirst (head.set 1 (.freepages page.special.next))
    Prog.dropWrite freepagesFirst
    pure (some id)
  else do
    Prog.dropWrite freepagesFirst
    pure none

/-- A clear page for the end of a tape, still latched: from the free list if there is
one and it is not empty, otherwise a new page. -/
def freshPage (tracking : Bool) (freepages : Option Nat) : RProg kind Nat :=
  match freepages with
  | none => Prog.extend .plain (Page.clear .last) tracking
  | some freepagesFirst => do
    match ← freepagesAlloc freepagesFirst with
    | some id => do
      Prog.put id (Page.clear .last)
      pure id
    | none => Prog.extend .plain (Page.clear .last) tracking

/-- Where `append` goes after a page that is not the end of the tape. -/
def follow (first current : Nat) (links : Opaque) : Nat :=
  if current = first ∧ links.skip ≠ first then links.skip else links.next

variable [PageSpace (Tuple kind)]

/-- Add the tuple to a new last page behind `current`, which is latched and full. -/
def appendFresh (tag : Tag) (first current : Nat) (page : RPage kind) (tuple : Tuple kind)
    (tracking : Bool) (freepages : Option Nat) : RProg kind (Nat × Nat) := do
  let fresh ← freshPage tracking freepages
  Prog.put current (setNext page fresh)
  Prog.dropWrite current
  match (Page.clear .last : RPage kind).alloc tuple with
  | some (filled, i) => do
    Prog.put fresh filled
    Prog.dropWrite fresh
    let past ← Prog.write tag first tracking
    Prog.put first (setSkip past (max fresh past.special.skip))
    Prog.dropWrite first
    pure (fresh, i)
  | none => Prog.panic

/-- One iteration of the loop of `append` at page `current`. -/
def appendAt (tag : Tag) (first : Nat) (tuple : Tuple kind) (tracking : Bool)
    (freepages : Option Nat) (current : Nat) : RProg kind (Nat ⊕ Nat × Nat) := do
  let page ← Prog.read tag current
  if tuple.size ≤ page.freespace ∨ page.special.next = u32Max then do
    Prog.dropRead current
    let page ← Prog.write tag current tracking
    if page.special.next = u32Max then
      match page.alloc tuple with
      | some (filled, i) => do
        Prog.put current filled
        Prog.dropWrite current
        pure (.inr (current, i))
      | none => do
        let placed ← appendFresh tag first current page tuple tracking freepages
        pure (.inr placed)
    else do
      Prog.dropWrite current
      pure (.inl (follow first current page.special))
  else do
    Prog.dropRead current
    pure (.inl (follow first current page.special))

/-- `tape::append`: add a tuple at the end of the tape that starts at `first` and
return its page and slot. -/
def append (tag : Tag) (first : Nat) (tuple : Tuple kind) (tracking : Bool)
    (freepages : Option Nat) : RProg kind (Nat × Nat) :=
  if tracking && freepages.isSome then Prog.panic
  else if first = u32Max then Prog.panic
  else Prog.loop (appendAt tag first tuple tracking freepages) iterations first

end VectorChord.Vchordrq
