import VectorChord.Vchordg.Graph

/-!
# Search of a graph index

A search walks from the start vertex of the meta page along the stored edges, nearest
candidates first, and puts the vertices whose vectors it has read into the results.
-/

namespace VectorChord.Vchordg

open Index Paged

/-- State of the iterator over the vertices of the graph: the candidates and the vertices
seen so far. -/
structure Walk where
  candidates : Candidates
  visited : List Id
  deriving DecidableEq, Repr

variable (op : Operator) [HeapPolicy]

/-- A query on an index with the given parameters. -/
structure Query where
  bits : Nat
  dim : Nat
  vector : Vector op.kind

variable {op}

/-- `Operator::process`.  The code is cut into as many planes as it has bits, and each of
them must have as many words as a plane of the query. -/
def Query.process (query : Query op) (code : Code) : Option Distance :=
  if query.bits ∣ code.elements.length ∧
      code.elements.length / query.bits = (query.vector.dim + 63) / 64 then
    some (op.process query.bits query.dim code query.vector)
  else none

/-- The candidate for a vertex. -/
def Query.candidate (query : Query op) (vertex : VertexTuple) (u : Id) :
    GProg op.kind Candidate := do
  let score ← Prog.expect (query.process vertex.code)
  pure ⟨score, vertex.pointers, u⟩

omit [HeapPolicy] in
/-- The walk that starts at a vertex, if it is there. -/
def Query.start (query : Query op) (beam : Nat) (s : Id) :
    GProg op.kind (Option Walk) := do
  match ← readVertex s with
  | none => pure none
  | some vertex => do
    let candidate ← query.candidate vertex s
    pure (some ⟨Candidates.push ⟨beam, [], []⟩ candidate, [s]⟩)

omit [HeapPolicy] in
/-- Add the unseen out-neighbours of a vertex to the candidates. -/
def Query.expand (query : Query op) (walk : Walk) (outs : List Id) : GProg op.kind Walk :=
  (outs.filter fun v => v ∉ walk.visited).foldlM (fun walk v => do
    let walk := { walk with visited := v :: walk.visited }
    match ← readVertex v with
    | none => pure walk
    | some vertex => do
      let candidate ← query.candidate vertex v
      pure { walk with candidates := walk.candidates.push candidate }) walk

/-- The next vertex of the walk whose vector can be read, with its distance. -/
def Query.next (query : Query op) (walk : Walk) :
    GProg op.kind (Option (Distance × Candidate × Read op.kind) × Walk) :=
  Prog.loop (fun walk =>
    match walk.candidates.pop with
    | (none, candidates) => pure (.inr (none, { walk with candidates := candidates }))
    | (some u, candidates) => do
      let walk := { walk with candidates := candidates }
      match ← vectorsRead query.vector.elements.length u.pointers with
      | none => pure (.inl walk)
      | some read => do
        let walk ← query.expand walk read.outs
        pure (.inr (some (op.access query.vector read.vector, u, read), walk)))
    iterations walk

/-- The loop `for element in iter.by_ref()`: push vertices to the results until one is
farther away than the result in place `ef`. -/
def Query.gather {α : Type} (query : Query op) (item : Candidate → Read op.kind → α)
    (state : Walk × Results α) : GProg op.kind (Walk × Results α) :=
  Prog.loop (fun (walk, results) => do
    match ← query.next walk with
    | (none, walk) => pure (.inr (walk, results))
    | (some (distance, u, read), walk) => do
      let results := results.push (distance, item u read)
      if results.peekEfTh.any fun worst => worst < distance then pure (.inr (walk, results))
      else pure (.inl (walk, results)))
    iterations state

omit [HeapPolicy] in
/-- The meta tuple; its page stays latched. -/
def readMeta {kind : VectorKind} : GProg kind (MetaTuple × GPage kind) := do
  let page ← Prog.read () 0
  let tuple ← getTuple Tuple.asMeta page 1
  pure (tuple, page)

/-- `Bits::try_from`. -/
def bitsTryFrom (bits : Nat) : Option Nat := if bits = 1 ∨ bits = 2 then some bits else none

/-- The first `n` results. -/
def Query.results (query : Query op) :
    (n : Nat) → Walk × Results (Option Payload) → GProg op.kind (List (Distance × Payload))
  | 0, _ => pure []
  | n + 1, state => do
    let (walk, results) ← query.gather (fun _ read => read.payload) state
    match results.popMin with
    | none => pure []
    | some ((distance, payload), results) => do
      let rest ← query.results n (walk, results)
      pure (match payload with
        | none => rest
        | some payload => (distance, payload) :: rest)

/-- `search`, of which `n` results are asked for. -/
def search (op : Operator) (vector : Vector op.kind) (efSearch beamSearch n : Nat) :
    GProg op.kind (List (Distance × Payload)) := do
  let (tuple, _) ← readMeta
  let bits ← Prog.expect (bitsTryFrom tuple.bits)
  if tuple.dim ≠ vector.dim then Prog.panic
  else do
    Prog.dropRead 0
    if beamSearch = 0 then Prog.panic
    else
      match tuple.start with
      | none => pure []
      | some s => do
        let query : Query op := ⟨bits, tuple.dim, vector⟩
        match ← query.start beamSearch s with
        | none => pure []
        | some walk =>
          if efSearch = 0 then Prog.panic
          else query.results n (walk, ⟨efSearch, [], []⟩)

end VectorChord.Vchordg
