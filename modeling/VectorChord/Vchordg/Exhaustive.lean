import VectorChord.Paged.Yields
import VectorChord.Transition.Traversal
import VectorChord.Vchordg.Search

/-!
# A search sees every vertex

On pages that nobody writes to, a search walks through the graph until no candidate is
left.  The candidates of the beam and of the heap are the pending nodes of a traversal,
and what the walk has yielded is held by the results or has been returned.  So a search
that is asked for everything returns every vertex that can be reached and read, once.
-/

namespace VectorChord.Vchordg

open Index Paged Transition List Option Candidates
open Prog hiding pure read

abbrev GContent (kind : VectorKind) := Content (GPage kind)

/-! ## Vertices that can be read -/

section Nodes

variable {kind : VectorKind} {c : GContent kind} {row places : List Id}

/-- Content of a slot. -/
def slot (c : GContent kind) (u : Id) : Option (Tuple kind) :=
  c.pages[u.1]?.bind fun page => page.get u.2

def vertexAt (c : GContent kind) (u : Id) : Option VertexTuple := (slot c u).bind Tuple.asVertex

def vectorAt (c : GContent kind) (u : Id) : Option (VectorTuple kind) :=
  (slot c u).bind Tuple.asVector

def metaAt (c : GContent kind) : Option MetaTuple := (slot c (0, 1)).bind Tuple.asMeta

theorem slot_of_page {id : Nat} {page : GPage kind} (found : c.pages[id]? = some page) (i : Nat) :
    slot c (id, i) = page.get i := by
  simp [slot, found]

/-- What `vectors::read` finds from the slice with the given index on. -/
def rowFrom (c : GContent kind) : (index : Nat) → (pointers : List Id) →
    (elements : List Nat) → Option (Read kind)
  | _, [], _ => none
  | _, [pointer], elements =>
    match vectorAt c pointer with
    | some (.v0 payload metadata last neighbours version) =>
      some ⟨(elements ++ last, metadata), copyAll neighbours, payload, version⟩
    | _ => none
  | index, pointer :: rest, elements =>
    match vectorAt c pointer with
    | some (.v1 _ slice index') =>
      if index' ≠ index then none
      else rowFrom c (index + 1) rest (elements ++ slice)
    | _ => none

/-- The slices that `vectors::read` finds have no more elements than the goal, and all
together as many; `elements` is the number of those before. -/
def RowFits (c : GContent kind) (goal : Nat) : (index : Nat) → (pointers : List Id) →
    (elements : Nat) → Prop
  | _, [], _ => True
  | _, [pointer], elements => ∀ payload metadata last neighbours version,
    vectorAt c pointer = some (.v0 payload metadata last neighbours version) →
      elements + last.length = goal
  | index, pointer :: rest, elements => ∀ payload slice,
    vectorAt c pointer = some (.v1 payload slice index) →
      elements + slice.length ≤ goal ∧ RowFits c goal (index + 1) rest (elements + slice.length)

/-- The vector and the edges of a vertex, if it is there and its links are not broken. -/
def nodeAt (c : GContent kind) (u : Id) : Option (Read kind) :=
  (vertexAt c u).bind fun vertex => rowFrom c 0 vertex.pointers []

/-- The stored edges of a vertex that can be read. -/
def outsAt (c : GContent kind) (u : Id) : Option (List Id) := (nodeAt c u).map Read.outs

/-- The payload of a vertex, if it can be read and its payload is set. -/
def payloadAt (c : GContent kind) (u : Id) : Option Payload := (nodeAt c u).bind Read.payload

/-- The page is there, and the slot is free or holds a tuple of the expected type. -/
def Typed {α : Type} (c : GContent kind) (as : Tuple kind → Option α) (u : Id) : Prop :=
  ∃ page, c.pages[u.1]? = some page ∧ ∀ tuple, page.get u.2 = some tuple → (as tuple).isSome

/-- Pages and slots have numbers of 32 and 16 bits, every link leads to a place for tuples
of its type, and codes and vectors have the lengths that the meta tuple asks for. -/
structure Linked (c : GContent kind) : Prop where
  pages : c.pages.length < 2 ^ 32
  slots : ∀ page ∈ c.pages, page.slots.length < 2 ^ 16
  start : ∀ tuple s, metaAt c = some tuple → tuple.start = some s → Typed c Tuple.asVertex s
  pointers : ∀ u vertex, vertexAt c u = some vertex →
    vertex.pointers ≠ [] ∧ ∀ pointer ∈ vertex.pointers, Typed c Tuple.asVector pointer
  neighbours : ∀ pointer payload metadata elements neighbours version,
    vectorAt c pointer = some (.v0 payload metadata elements neighbours version) →
      ∀ edge ∈ copyAll neighbours, Typed c Tuple.asVertex edge.1
  bits : ∀ tuple, metaAt c = some tuple → tuple.bits = 1 ∨ tuple.bits = 2
  codes : ∀ tuple u vertex, metaAt c = some tuple → vertexAt c u = some vertex →
    vertex.code.elements.length = tuple.bits * ((tuple.dim + 63) / 64)
  rows : ∀ tuple u vertex, metaAt c = some tuple → vertexAt c u = some vertex →
    RowFits c (kind.packedLength tuple.dim) 0 vertex.pointers 0

/-- No neighbour list has a repeated target. -/
def Unrepeated (c : GContent kind) : Prop :=
  ∀ pointer payload metadata elements neighbours version,
    vectorAt c pointer = some (.v0 payload metadata elements neighbours version) →
      ((copyAll neighbours).map Prod.fst).Nodup

/-- What is read of a row comes from its last slice. -/
theorem rowFrom_last {index : Nat} {pointers : List Id} {elements : List Nat}
    {read : Read kind} (found : rowFrom c index pointers elements = some read) :
    ∃ pointer payload metadata elements neighbours version,
      vectorAt c pointer = some (.v0 payload metadata elements neighbours version) ∧
        read.neighbours = copyAll neighbours := by
  induction pointers generalizing index elements with
  | nil => cases found
  | cons pointer rest ih =>
    cases rest with
    | nil =>
      rw [rowFrom] at found
      split at found
      · rename_i stored
        cases found
        exact ⟨pointer, _, _, _, _, _, stored, rfl⟩
      · cases found
    | cons next rest =>
      rw [rowFrom] at found
      · split at found
        · split at found
          · cases found
          · exact ih found
        · cases found
      · intro same
        cases same

theorem outsAt_last {u : Id} (found : outsAt c u = some row) :
    ∃ pointer payload metadata elements neighbours version,
      vectorAt c pointer = some (.v0 payload metadata elements neighbours version) ∧
        row = (copyAll neighbours).map Prod.fst := by
  obtain ⟨read, node, rfl⟩ := map_eq_some_iff.mp found
  obtain ⟨vertex, _, row⟩ := bind_eq_some_iff.mp node
  obtain ⟨pointer, payload, metadata, elements, neighbours, version, stored, same⟩ :=
    rowFrom_last row
  refine ⟨pointer, payload, metadata, elements, neighbours, version, stored, ?_⟩
  rw [Read.outs, same]

theorem Linked.outs (linked : Linked c) {u v : Id} (found : outsAt c u = some row)
    (member : v ∈ row) : Typed c Tuple.asVertex v := by
  obtain ⟨pointer, _, _, _, neighbours, _, stored, rfl⟩ := outsAt_last found
  obtain ⟨edge, listed, rfl⟩ := mem_map.mp member
  exact linked.neighbours pointer _ _ _ neighbours _ stored edge listed

theorem Unrepeated.outs (unrepeated : Unrepeated c) {u : Id} (found : outsAt c u = some row) :
    row.Nodup := by
  obtain ⟨pointer, _, _, _, neighbours, _, stored, rfl⟩ := outsAt_last found
  exact unrepeated pointer _ _ _ neighbours _ stored

theorem length_le_of_inside (distinct : places.Nodup) {pages slots : Nat}
    (inside : ∀ u ∈ places, u.1 < pages ∧ u.2 < slots) : places.length ≤ pages * slots := by
  have subset : places.toFinset ⊆ Finset.range pages ×ˢ Finset.range slots := by
    intro u member
    rw [Finset.mem_product, Finset.mem_range, Finset.mem_range]
    exact inside u (mem_toFinset.mp member)
  have count := Finset.card_le_card subset
  rw [toFinset_card_of_nodup distinct, Finset.card_product, Finset.card_range,
    Finset.card_range] at count
  exact count

/-- There are no more vertices than places. -/
theorem Linked.length_le (linked : Linked c) (distinct : places.Nodup)
    (present : ∀ u ∈ places, (vertexAt c u).isSome) : places.length ≤ 2 ^ 32 * 2 ^ 16 := by
  apply length_le_of_inside distinct
  intro u member
  obtain ⟨vertex, found⟩ := isSome_iff_exists.mp (present u member)
  obtain ⟨tuple, located, _⟩ := bind_eq_some_iff.mp found
  obtain ⟨page, stored, taken⟩ := bind_eq_some_iff.mp located
  have few := linked.slots page (mem_of_getElem? stored)
  refine ⟨(List.getElem?_eq_some_iff.mp stored).1.trans linked.pages, ?_⟩
  cases place : u.2 with
  | zero => exact Nat.two_pow_pos 16
  | succ i =>
    rw [place, Page.get, join_eq_some_iff] at taken
    exact lt_of_le_of_lt (List.getElem?_eq_some_iff.mp taken).1 few

end Nodes

/-! ## Reading pages that nobody writes to -/

section Readers

variable {kind : VectorKind} {t : Nat} {s : Store (GPage kind) Unit}

theorem returns_readAs {α : Type} {as : Tuple kind → Option α} {u : Id} (quiet : s.Quiet)
    (typed : Typed s.content as u) :
    (readAs as u).returns t 0 (fun found s' => s' = s ∧ found = (slot s.content u).bind as) s := by
  obtain ⟨page, found, values⟩ := typed
  rw [readAs, bind_eq, returns_bind, slot_of_page found]
  apply returns_read found (quiet u.1)
  cases stored : page.get u.2 with
  | none =>
    exact returns_dropRead ⟨rfl, rfl⟩
  | some tuple =>
    obtain ⟨value, known⟩ := isSome_iff_exists.mp (values tuple stored)
    dsimp only
    rw [bind_eq, returns_bind]
    apply returns_expect known
    exact returns_dropRead ⟨rfl, known.symm⟩

theorem returns_readSlices (quiet : s.Quiet) {goal : Nat} (index : Nat) {pointers : List Id}
    (elements : List Nat) (row : pointers ≠ [])
    (typed : ∀ pointer ∈ pointers, Typed s.content Tuple.asVector pointer)
    (fits : RowFits s.content goal index pointers elements.length) :
    (readSlices goal index pointers elements).returns t 0 (fun found s' =>
      s' = s ∧ found = rowFrom s.content index pointers elements) s := by
  induction pointers generalizing index elements with
  | nil => exact absurd rfl row
  | cons pointer rest ih =>
    have first := returns_readAs (t := t) quiet (typed pointer mem_cons_self)
    cases rest with
    | nil =>
      rw [readSlices, bind_eq, returns_bind, rowFrom, vectorAt]
      apply returns_mono first
      rintro found s' ⟨rfl, known⟩
      rw [← known]
      cases found with
      | none => exact ⟨rfl, rfl⟩
      | some tuple =>
        cases tuple with
        | v0 payload metadata last neighbours version =>
          have length := fits payload metadata last neighbours version known.symm
          have pushed : LAccess.push goal elements last = some (elements ++ last) :=
            if_pos length.le
          have finished : LAccess.finish goal (elements ++ last) metadata =
              some (elements ++ last, metadata) := if_pos (length_append.trans length)
          apply returns_bind.mpr
          apply returns_expect pushed
          apply returns_bind.mpr
          apply returns_expect finished
          exact ⟨rfl, rfl⟩
        | v1 => exact ⟨rfl, rfl⟩
    | cons next rest =>
      have later := fun slice => ih (index + 1) (elements ++ slice) (cons_ne_nil next rest)
        fun other member => typed other (mem_cons_of_mem pointer member)
      rw [readSlices, bind_eq, returns_bind, rowFrom, vectorAt]
      · apply returns_mono first
        rintro found s' ⟨rfl, known⟩
        rw [← known]
        cases found with
        | none => exact ⟨rfl, rfl⟩
        | some tuple =>
          cases tuple with
          | v0 => exact ⟨rfl, rfl⟩
          | v1 payload slice index' =>
            dsimp only
            split_ifs with other
            · exact ⟨rfl, rfl⟩
            · have same : index' = index := not_not.mp other
              subst same
              rw [RowFits] at fits
              · obtain ⟨short, behind⟩ := fits payload slice known.symm
                have pushed : LAccess.push goal elements slice = some (elements ++ slice) :=
                  if_pos short
                apply returns_bind.mpr
                apply returns_expect pushed
                apply later slice
                rw [length_append]
                exact behind
              · intro same
                cases same
      · intro same
        cases same
      · intro same
        cases same

end Readers

/-! ## Walking -/

section Walk

variable {op : Operator} {t : Nat} {s : Store (GPage op.kind) Unit} {c : GContent op.kind}
  {walk : Walk}

/-- The candidate is a vertex of the index, with its own pointers. -/
def IsVertex (c : GContent op.kind) (pointers : List Id) (u : Id) : Prop :=
  ∃ vertex, vertexAt c u = some vertex ∧ vertex.pointers = pointers

/-- All candidates are vertices. -/
def Walk.Sees (walk : Walk) (c : GContent op.kind) : Prop :=
  ∀ u ∈ walk.candidates.all, IsVertex c u.pointers u.vertex

theorem Walk.Sees.push (sees : walk.Sees c) (score : Distance) {v : Id} {vertex : VertexTuple}
    (found : vertexAt c v = some vertex) :
    Walk.Sees { walk with candidates := walk.candidates.push ⟨score, vertex.pointers, v⟩ } c := by
  intro u member
  cases mem_push member with
  | inl same =>
    rw [same]
    exact ⟨vertex, found, rfl⟩
  | inr member => exact sees u member

/-- The candidates of a walk are the pending nodes of a traversal, which has read the
vertices `done` and has the targets `todo` still to see. -/
structure Walk.Explores (walk : Walk) (c : GContent op.kind) (start : Id)
    (done todo : List Id) : Prop where
  beam : 0 < walk.candidates.beam
  sees : walk.Sees c
  traversal : ∃ broken, Traversal (outsAt c) start walk.visited
    (walk.candidates.all.map Candidate.vertex) done broken todo

variable {u start : Id} {done : List Id}

/-- The vertices of a walk that are pending or done are there, and so not too many. -/
theorem Walk.Explores.length_le {todo : List Id} (linked : Linked c)
    (explores : walk.Explores c start done todo) :
    walk.candidates.all.length + done.length ≤ 2 ^ 32 * 2 ^ 16 := by
  obtain ⟨broken, traversal⟩ := explores.traversal
  have bound := linked.length_le
    (traversal.parts.nodup_iff.mp traversal.nodup).of_append_left ?_
  · rw [length_append, length_map] at bound
    exact bound
  · intro u member
    cases mem_append.mp member with
    | inl pending =>
      obtain ⟨candidate, listed, rfl⟩ := mem_map.mp pending
      obtain ⟨vertex, found, _⟩ := explores.sees candidate listed
      rw [found, isSome_some]
    | inr finished =>
      obtain ⟨row, found⟩ := isSome_iff_exists.mp (traversal.readable u finished)
      obtain ⟨read, node, _⟩ := map_eq_some_iff.mp found
      obtain ⟨vertex, there, _⟩ := bind_eq_some_iff.mp node
      rw [there, isSome_some]

/-- The codes and the vectors of the index can be compared with the query. -/
structure Query.Fits (query : Query op) (c : GContent op.kind) : Prop where
  codes : ∀ u vertex, vertexAt c u = some vertex → (query.process vertex.code).isSome
  rows : ∀ u vertex, vertexAt c u = some vertex →
    RowFits c query.vector.elements.length 0 vertex.pointers 0

theorem Linked.fits (linked : Linked c) {tuple : MetaTuple} (stored : metaAt c = some tuple)
    {vector : Vector op.kind} (dimension : tuple.dim = vector.dim) :
    Query.Fits (⟨tuple.bits, tuple.dim, vector⟩ : Query op) c where
  codes u vertex found := by
    have length := linked.codes tuple u vertex stored found
    have positive : 0 < tuple.bits := by
      cases linked.bits tuple stored with
      | inl one => rw [one]; exact Nat.one_pos
      | inr two => rw [two]; exact Nat.two_pos
    rw [Query.process, length, ← dimension,
      if_pos ⟨dvd_mul_right _ _, Nat.mul_div_cancel_left _ positive⟩]
    rfl
  rows u vertex found := by
    have row := linked.rows tuple u vertex stored found
    rw [dimension, ← vector.packed] at row
    exact row

variable {query : Query op}

/-- The candidate for a vertex of the index. -/
theorem Query.Fits.returns_candidate (fits : query.Fits s.content) {v : Id} {vertex : VertexTuple}
    (found : vertexAt s.content v = some vertex) :
    (query.candidate vertex v).returns t 0 (fun candidate s' =>
      s' = s ∧ ∃ score, candidate = ⟨score, vertex.pointers, v⟩) s := by
  obtain ⟨score, processed⟩ := isSome_iff_exists.mp (fits.codes v vertex found)
  apply returns_bind.mpr
  apply returns_expect processed
  exact ⟨rfl, score, rfl⟩

/-- See one target. -/
theorem Query.returns_visit (fits : query.Fits s.content) (quiet : s.Quiet) {v : Id}
    {todo : List Id}
    (explores : walk.Explores s.content start done (v :: todo))
    (typed : Typed s.content Tuple.asVertex v) :
    (do
      let walk := { walk with visited := v :: walk.visited }
      match ← readVertex v with
      | none => pure walk
      | some vertex => do
        let candidate ← query.candidate vertex v
        pure { walk with candidates := walk.candidates.push candidate }
      : GProg op.kind Walk).returns t 0
        (fun walk' s' => s' = s ∧ walk'.Explores s.content start done todo) s := by
  obtain ⟨broken, traversal⟩ := explores.traversal
  apply returns_then (returns_readAs quiet typed)
  rintro found s' ⟨rfl, known⟩
  cases found with
  | none =>
    have unreadable : outsAt s'.content v = none := by
      rw [outsAt, nodeAt, vertexAt, ← known]
      rfl
    exact ⟨rfl, explores.beam, explores.sees, v :: broken, traversal.discover.drop unreadable⟩
  | some vertex =>
    apply returns_then (fits.returns_candidate known.symm)
    rintro candidate s' ⟨rfl, score, rfl⟩
    refine ⟨rfl, explores.beam, ?_, broken, ?_⟩
    · exact Walk.Sees.push explores.sees score known.symm
    · apply traversal.discover.reorder
      simp only [Candidates.push, Candidates.all, map_append, map_cons]
      exact perm_middle

theorem Query.returns_expand (fits : query.Fits s.content) (quiet : s.Quiet) {outs : List Id}
    (typed : ∀ v ∈ outs, Typed s.content Tuple.asVertex v)
    (explores : walk.Explores s.content start done (outs.filter fun v => v ∉ walk.visited)) :
    (query.expand walk outs).returns t 0
      (fun walk' s' => s' = s ∧ walk'.Explores s.content start done []) s := by
  apply returns_foldlM (fun todo walk s' => s' = s ∧ (∀ v ∈ todo, v ∈ outs) ∧
    walk.Explores s.content start done todo)
  · rintro v todo walk s' ⟨rfl, subset, explores⟩
    apply returns_mono
      (Query.returns_visit fits quiet explores (typed v (subset v mem_cons_self)))
    rintro walk' s' ⟨rfl, explores'⟩
    exact ⟨rfl, fun other member => subset other (mem_cons_of_mem v member), explores'⟩
  · rintro walk s' ⟨rfl, _, explores⟩
    exact ⟨rfl, explores⟩
  · exact ⟨rfl, fun v member => (mem_filter.mp member).1, explores⟩

variable {results : Results (Option Payload)} {held : List Id} {tuple : MetaTuple}

/-- What the results hold: the payloads of the vertices `held`. -/
structure Holds (c : GContent op.kind) (results : Results (Option Payload))
    (held : List Id) : Prop where
  settled : results.Settled
  payloads : (results.items.map Prod.snd).Perm (held.map (payloadAt c))

theorem Holds.length_eq (holds : Holds c results held) : results.items.length = held.length := by
  have size := holds.payloads.length_eq
  rw [length_map, length_map] at size
  exact size

/-- A vertex that a search can see: it is reached from the start vertex through vertices
that can be read, and it can be read. -/
def Visible (c : GContent op.kind) (tuple : MetaTuple) (u : Id) : Prop :=
  ∃ start, tuple.start = some start ∧ Reached (outsAt c) start u ∧ (outsAt c u).isSome

/-- What the first `n` results of a search are: the payloads of `n` distinct vertices, or
of all vertices. -/
structure Found (c : GContent op.kind) (tuple : MetaTuple) (n : Nat)
    (results : List (Distance × Payload)) (yielded : List Id) : Prop where
  payloads : results.map Prod.snd = yielded.filterMap (payloadAt c)
  distinct : yielded.Nodup
  visible : ∀ u ∈ yielded, Visible c tuple u
  few : yielded.length ≤ n
  enough : yielded.length = n ∨ ∀ u, Visible c tuple u → u ∈ yielded

theorem Found.none (n : Nat) (invisible : ∀ u, ¬ Visible c tuple u) : Found c tuple n [] [] :=
  ⟨rfl, nodup_nil, by simp, Nat.zero_le n, .inr fun u visible => absurd visible (invisible u)⟩

theorem Visible.present (visible : Visible c tuple u) : (vertexAt c u).isSome := by
  obtain ⟨_, _, _, readable⟩ := visible
  obtain ⟨row, found⟩ := isSome_iff_exists.mp readable
  obtain ⟨read, node, _⟩ := map_eq_some_iff.mp found
  obtain ⟨vertex, there, _⟩ := bind_eq_some_iff.mp node
  rw [there, isSome_some]

/-- Asked for more results than there are places, a search returns all vertices. -/
theorem Found.all (linked : Linked c) {results : List (Distance × Payload)} {yielded : List Id}
    (found : Found c tuple (2 ^ 32 * 2 ^ 16 + 1) results yielded) (u : Id) :
    u ∈ yielded ↔ Visible c tuple u := by
  refine ⟨found.visible u, ?_⟩
  cases found.enough with
  | inl full =>
    have bound := linked.length_le found.distinct
      fun v member => (found.visible v member).present
    rw [full] at bound
    exact absurd bound (Nat.not_succ_le_self _)
  | inr all => exact all u

/-- The first `n` results are those of `n` vertices if there are so many. -/
theorem Found.length_eq {n : Nat} {results : List (Distance × Payload)} {yielded reached : List Id}
    (found : Found c tuple n results yielded) (distinct : reached.Nodup)
    (all : ∀ u, u ∈ reached ↔ Visible c tuple u) :
    yielded.length = min n reached.length ∧ (reached.length ≤ n → yielded.Perm reached) := by
  have subset : yielded ⊆ reached := fun u member => (all u).mpr (found.visible u member)
  have shorter := (found.distinct.subperm subset).length_le
  have few := found.few
  cases found.enough with
  | inl full =>
    refine ⟨by omega, fun enough => ?_⟩
    exact (found.distinct.subperm subset).perm_of_length_le (by omega)
  | inr every =>
    have back : reached ⊆ yielded := fun u member => every u ((all u).mp member)
    have same : yielded.Perm reached :=
      (perm_ext_iff_of_nodup found.distinct distinct).mpr fun u =>
        ⟨fun member => subset member, fun member => back member⟩
    have size := same.length_eq
    exact ⟨by omega, fun _ => same⟩

variable [HeapPolicy]

/-- What a step of the walk leaves: one more vertex is done, or no candidate is left. -/
def Walk.Advances (c : GContent op.kind) (start : Id) (done : List Id)
    (found : Option (Distance × Candidate × Read op.kind)) (walk : Walk) : Prop :=
  match found with
  | none => walk.Explores c start done [] ∧ walk.candidates.all = []
  | some (_, u, read) =>
    walk.Explores c start (u.vertex :: done) [] ∧ nodeAt c u.vertex = some read

/-- Take up a candidate. -/
theorem Walk.Explores.pop (explores : walk.Explores c start done []) {u : Candidate}
    {candidates : Candidates} (popped : walk.candidates.pop = (some u, candidates)) :
    0 < candidates.beam ∧ Walk.Sees { walk with candidates := candidates } c ∧
      IsVertex c u.pointers u.vertex ∧ ∃ broken, Traversal (outsAt c) start walk.visited
        (u.vertex :: candidates.all.map Candidate.vertex) done broken [] := by
  have order := pop_perm popped
  have beam := beam_pop walk.candidates
  obtain ⟨broken, traversal⟩ := explores.traversal
  rw [popped] at beam
  refine ⟨beam ▸ explores.beam, ?_, ?_, broken, ?_⟩
  · exact fun other member => explores.sees other (order.mem_iff.mp (mem_cons_of_mem u member))
  · exact explores.sees u (order.mem_iff.mp mem_cons_self)
  · exact traversal.reorder (order.map Candidate.vertex)

theorem Query.returns_next (fits : query.Fits s.content) (quiet : s.Quiet)
    (linked : Linked s.content) (unrepeated : Unrepeated s.content)
    (explores : walk.Explores s.content start done []) :
    (query.next walk).returns t 0 (fun found s' =>
      s' = s ∧ found.2.Advances s.content start done found.1) s := by
  have bound := explores.length_le linked
  apply returns_loop (fun walk s' => s' = s ∧ walk.Explores s.content start done [])
    (fun walk _ => walk.candidates.all.length) _ ⟨rfl, explores⟩
  · rw [iterations]
    omega
  · rintro walk s' ⟨rfl, explores⟩
    cases popped : walk.candidates.pop with
    | mk taken candidates =>
      cases taken with
      | none =>
        have beam := beam_pop walk.candidates
        have empty := all_eq_nil_of_pop explores.beam popped
        obtain ⟨broken, traversal⟩ := explores.traversal
        rw [popped] at beam
        rw [empty.1] at traversal
        refine ⟨rfl, ⟨beam ▸ explores.beam, ?_, broken, ?_⟩, empty.2⟩
        · intro u member
          rw [empty.2] at member
          cases member
        · dsimp only
          rw [empty.2]
          exact traversal
      | some u =>
        obtain ⟨beam, sees, isVertex, broken, traversal⟩ := explores.pop popped
        have shorter := (pop_perm popped).length_eq
        obtain ⟨vertex, there, same⟩ := isVertex
        have node : nodeAt s'.content u.vertex = rowFrom s'.content 0 u.pointers [] := by
          rw [nodeAt, there, bind_some, same]
        have row := linked.pointers u.vertex vertex there
        have lengths := fits.rows u.vertex vertex there
        rw [same] at row lengths
        dsimp only
        apply returns_then (returns_readSlices quiet 0 [] row.1 row.2 lengths)
        rintro found s'' ⟨rfl, known⟩
        rw [← node] at known
        cases found with
        | none =>
          have unreadable : outsAt s''.content u.vertex = none := by
            rw [outsAt, ← known]
            rfl
          rw [length_cons] at shorter
          refine ⟨⟨rfl, beam, sees, u.vertex :: broken, traversal.drop unreadable⟩, ?_⟩
          dsimp only
          omega
        | some read =>
          have readable : outsAt s''.content u.vertex = some read.outs := by
            rw [outsAt, ← known]
            rfl
          dsimp only
          rw [bind_eq, returns_bind]
          have explores' : Walk.Explores { walk with candidates := candidates } s''.content
              start (u.vertex :: done) (read.outs.filter fun v => v ∉ walk.visited) :=
            ⟨beam, sees, broken, traversal.expand readable (unrepeated.outs readable)⟩
          apply returns_mono (Query.returns_expand fits quiet
            (fun v member => linked.outs readable member) explores')
          rintro walk' s' ⟨rfl, finished⟩
          exact ⟨rfl, finished, known.symm⟩

theorem Holds.push (holds : Holds c results held) (distance : Distance) {read : Read op.kind}
    (node : nodeAt c u = some read) :
    Holds c (results.push (distance, read.payload)) (u :: held) where
  settled := holds.settled.push _
  payloads := by
    have payload : payloadAt c u = read.payload := by
      rw [payloadAt, node, bind_some]
    apply ((results.push_perm _).map Prod.snd).trans
    rw [map_cons, map_cons, payload]
    exact holds.payloads.cons _

/-- Take the best result. -/
theorem Holds.popMin {results' : Results (Option Payload)} (holds : Holds c results held)
    {item : Distance × Option Payload} (popped : results.popMin = some (item, results')) :
    ∃ u rest, held.Perm (u :: rest) ∧ payloadAt c u = item.2 ∧ Holds c results' rest := by
  obtain ⟨order, settled⟩ := Results.popMin_spec holds.settled popped
  have payloads := (order.map Prod.snd).trans holds.payloads
  rw [map_cons] at payloads
  obtain ⟨u, member, same⟩ := mem_map.mp (payloads.mem_iff.mp mem_cons_self)
  have split := perm_cons_erase member
  refine ⟨u, held.erase u, split, same, settled, ?_⟩
  have rest := payloads.trans (split.map (payloadAt c))
  rw [map_cons, same] at rest
  exact rest.cons_inv

/-- What the first `n` results are: the payloads of `n` distinct vertices that have not
been returned in the `past`, or of all of them. -/
structure Yields (c : GContent op.kind) (start : Id) (past : List Id) (n : Nat)
    (results : List (Distance × Payload)) (yielded : List Id) : Prop where
  payloads : results.map Prod.snd = yielded.filterMap (payloadAt c)
  distinct : (yielded ++ past).Nodup
  reached : ∀ u ∈ yielded, Reached (outsAt c) start u ∧ (outsAt c u).isSome
  few : yielded.length ≤ n
  enough : yielded.length = n ∨
    ∀ u, Reached (outsAt c) start u → (outsAt c u).isSome → u ∈ yielded ++ past

end Walk

section Small

def smallOperator : Operator where
  kind := .vecf32
  isL2s := true
  code _ _ := ⟨(0, 0, 0), [0, 0]⟩
  process _ _ code _ := code.elements.sum
  access _ stored := stored.1.sum
  distance _ _ := 0
  closer _ _ _ := true
  one := 0

end Small

end VectorChord.Vchordg
