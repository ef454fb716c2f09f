import VectorChord.Rabitq.Packing
import VectorChord.Vchordg.Tuples

/-!
# Tuples of an insertion fit on their pages

The vertex pages form a chain that starts at the link of the meta page, and the link of a
vertex page is the start of the chain of its vector pages.  An insertion appends the slices
of its vector to one of the latter and its vertex to the former.

`split` leaves room for the out-edges behind the last slice of a vector, and cuts the rest
into slices that fill a page.  Within the options that an index accepts, no tuple that an
insertion stores is larger than the room on a clear page, so the loops that look for a page
always end with one.
-/

namespace VectorChord.Vchordg

open Index Paged List
open Prog hiding pure

/-! ## Appending -/

section
variable {kind : VectorKind} [PageSpace (Tuple kind)]

/-- The loops of `append_vertex_tuple` and `append_vector_tuple` at one page: an exclusively
latched page with enough room, or the page to go to.  They differ in whether the page is
tracked and in how the chain is extended. -/
def appendTupleAt (tracking : Bool) (extend : GProg kind (Nat × GPage kind))
    (size current : Nat) : GProg kind (Nat ⊕ Nat × GPage kind) := do
  let page ← Prog.read () current
  if size ≤ page.freespace ∨ page.special.next = u32Max then do
    Prog.dropRead current
    let page ← Prog.write () current tracking
    if size ≤ page.freespace then pure (.inr (current, page))
    else if page.special.next = u32Max then do
      let (extended, clear) ← extend
      Prog.put current (setNext page extended)
      Prog.dropWrite current
      if size ≤ clear.freespace then pure (.inr (extended, clear))
      else Prog.panic
    else do
      Prog.dropWrite current
      pure (.inl page.special.next)
  else do
    Prog.dropRead current
    pure (.inl page.special.next)

def appendTuple (tracking : Bool) (extend : GProg kind (Nat × GPage kind))
    (first size : Nat) : GProg kind (Nat × GPage kind) :=
  if first = u32Max then Prog.panic
  else Prog.loop (appendTupleAt tracking extend size) iterations first

/-- A page at the end of a chain, latched for its writer. -/
def extendWith (special : Opaque) (tracking : Bool) : GProg kind (Nat × GPage kind) := do
  let extended ← Prog.extend () (Page.clear special) tracking
  pure (extended, Page.clear special)

/-- A vertex page comes with the first page for the vectors of its vertices. -/
def extendVertices : GProg kind (Nat × GPage kind) := do
  let (link, _) ← extendWith ⟨u32Max, u32Max⟩ false
  Prog.dropWrite link
  extendWith ⟨u32Max, link⟩ true

/-- `append_vertex_tuple`. -/
def appendVertexTuple (first size : Nat) : GProg kind (Nat × GPage kind) :=
  appendTuple true extendVertices first size

/-- `append_vector_tuple`. -/
def appendVectorTuple (first size : Nat) : GProg kind (Nat × GPage kind) :=
  appendTuple false (extendWith ⟨u32Max, u32Max⟩ false) first size

end

/-- The vector tuples of a vector that is inserted. -/
def vectorTuples {kind : VectorKind} (m : Nat) (vector : Vector kind) (payload : Payload)
    (version : Nat) : List (VectorTuple kind) :=
  let (left, right) := split kind m vector.elements
  left.zipIdx.map (fun (elements, index) => .v1 (some payload) elements index) ++
    [.v0 (some payload) vector.metadata right (List.replicate m none) version]

/-! ## Sizes -/

/-- `VectorOptions` and `VchordgIndexOptions`, as far as sizes depend on them. -/
structure Options where
  dim : Nat
  bits : Nat
  m : Nat
  deriving DecidableEq, Repr

/-- The ranges that `VectorOptions` and `VchordgIndexOptions` are validated for. -/
structure Options.Accepted (options : Options) : Prop where
  dim : 1 ≤ options.dim ∧ options.dim ≤ 30000
  bits : 1 ≤ options.bits ∧ options.bits ≤ 2
  m : 1 ≤ options.m ∧ options.m ≤ 512

/-- The code of a vector is packed from one number for every dimension. -/
def Operator.PacksCodes (op : Operator) : Prop :=
  ∀ bits vector, ∃ codes : List Nat, codes.length = vector.dim ∧
    (op.code bits vector).elements = Rabitq.packBits bits codes

section
variable {kind : VectorKind}

/-- The last slice and the edges behind it take a page at most. -/
theorem size_split_last (kind : VectorKind) (m : Nat) (elements : List Nat) :
    kind.elementSize * (split kind m elements).2.length ≤ 8000 - align8 (12 * m) := by
  have last : (split kind m elements).2.length ≤ (8000 - align8 (12 * m)) / kind.elementSize := by
    simp only [split]
    generalize (8000 - align8 (12 * m)) / kind.elementSize = last
    split_ifs with short
    · exact short
    · rw [length_drop]
      omega
  exact (Nat.mul_le_mul_left _ last).trans (Nat.mul_div_le _ _)

theorem size_split_left {m : Nat} {elements slice : List Nat}
    (member : slice ∈ (split kind m elements).1) : kind.elementSize * slice.length ≤ 8000 := by
  have length : slice.length ≤ 8000 / kind.elementSize := by
    simp only [split] at member
    split_ifs at member
    · cases member
    · exact Vchordrq.length_of_mem_chunks member
  exact (Nat.mul_le_mul_left _ length).trans (Nat.mul_div_le _ _)

theorem flatten_split (kind : VectorKind) (m : Nat) (elements : List Nat) :
    (split kind m elements).1.flatten ++ (split kind m elements).2 = elements := by
  have positive : 0 < 8000 / kind.elementSize := by cases kind <;> decide
  simp only [split]
  split_ifs
  · rfl
  · rw [Vchordrq.flatten_chunks positive, take_append_drop]

/-- A vector of a supported dimension has at most fifteen slices before the last one. -/
theorem length_split_left {m dim : Nat} {elements : List Nat}
    (packed : elements.length = kind.packedLength dim) (supported : dim ≤ 30000) :
    (split kind m elements).1.length ≤ 15 := by
  simp only [split]
  split_ifs
  · simp
  · rw [Vchordrq.length_chunks, length_take]
    cases kind <;> simp only [VectorChord.Vchordrq.VectorKind.packedLength,
      VectorChord.Vchordrq.VectorKind.elementSize] at packed ⊢ <;> omega

variable [PageSpace (Tuple kind)] {tuple : Tuple kind} {first : Nat}

/-- The search for a page to append to ends with one that takes the tuple, if the chain is
extended by clear pages. -/
theorem always_appendTuple (fits : Page.Fits Opaque tuple) (proper : first ≠ u32Max)
    {tracking : Bool} {extend : GProg kind (Nat × GPage kind)}
    (clears : extend.Always fun found => ∃ special, found.2 = Page.clear special) :
    (appendTuple tracking extend first tuple.size).Always fun found =>
      (found.2.alloc tuple).isSome := by
  rw [appendTuple, if_neg proper]
  apply always_loop
  intro current
  apply always_request (by simp)
  intro page
  split
  · apply always_request (by simp)
    intro _
    apply always_request (by simp)
    intro page
    split
    next room => exact Page.alloc_of_size room
    next =>
      split
      · apply always_bind.mpr
        refine clears.mono ?_
        rintro ⟨extended, clear⟩ ⟨special, rfl⟩
        apply always_request (by simp)
        intro _
        apply always_request (by simp)
        intro _
        split
        next => exact (fits special).2
        next narrow => exact absurd (fits special).1 narrow
      · exact always_request (by simp) fun _ => trivial
  · exact always_request (by simp) fun _ => trivial

omit [PageSpace (Tuple kind)] in
theorem always_extendWith (special : Opaque) (tracking : Bool) :
    (extendWith special tracking : GProg kind _).Always fun found =>
      ∃ special, found.2 = Page.clear special :=
  always_request (by simp) fun _ => ⟨special, rfl⟩

omit [PageSpace (Tuple kind)] in
theorem always_extendVertices : (extendVertices : GProg kind _).Always fun found =>
    ∃ special, found.2 = Page.clear special := by
  apply always_request (by simp)
  intro link
  apply always_request (by simp)
  intro _
  exact always_extendWith _ true

end

variable (op : Operator) [PageSpace (Tuple op.kind)]

/-- Whatever an insertion stores fits on a clear page, and finding a page for it does not
fail; the slices are the vector. -/
theorem insertion_fits (packs : op.PacksCodes) {options : Options} (accepted : options.Accepted)
    (vector : Vector op.kind) (sameDim : vector.dim = options.dim) (payload : Payload)
    (version : Nat) :
    align8 (12 * options.m) ≤ 8000 ∧
      (split op.kind options.m vector.elements).1.flatten ++
        (split op.kind options.m vector.elements).2 = vector.elements ∧
      (∀ tuple ∈ vectorTuples options.m vector payload version,
        Page.Fits Opaque (.vector tuple : Tuple op.kind) ∧ ∀ link, link ≠ u32Max →
          (appendVectorTuple link (Tuple.vector tuple).size : GProg op.kind _).Always fun found =>
            (found.2.alloc (.vector tuple)).isSome) ∧
      ∀ pointers : List Id,
        pointers.length = (vectorTuples options.m vector payload version).length →
        Page.Fits Opaque (.vertex ⟨op.code options.bits vector, some payload, pointers⟩ :
          Tuple op.kind) ∧ ∀ skip, skip ≠ u32Max →
            (appendVertexTuple skip (Tuple.vertex ⟨op.code options.bits vector, some payload,
              pointers⟩ : Tuple op.kind).size : GProg op.kind _).Always fun found =>
                (found.2.alloc (.vertex ⟨op.code options.bits vector, some payload,
                  pointers⟩)).isSome := by
  have tailing : align8 (12 * options.m) ≤ 8000 := by
    have := accepted.m
    simp only [align8]
    omega
  have metadata : align8 op.kind.metadataSize ≤ 16 := by cases op.kind <;> decide
  have vectors : ∀ tuple ∈ vectorTuples options.m vector payload version,
      Page.Fits Opaque (.vector tuple : Tuple op.kind) := by
    intro tuple member
    apply Page.fits_of_size
    rcases mem_append.mp member with left | right
    · obtain ⟨⟨slice, index⟩, listed, rfl⟩ := mem_map.mp left
      have size := size_split_left (fst_mem_of_mem_zipIdx listed)
      simp only [TupleSize.size, Tuple.size, clearSpace, align8] at size ⊢
      omega
    · have last : tuple = .v0 (some payload) vector.metadata
          (split op.kind options.m vector.elements).2 (List.replicate options.m none) version :=
        mem_singleton.mp right
      rw [last]
      have size := size_split_last op.kind options.m vector.elements
      simp only [TupleSize.size, Tuple.size, clearSpace, length_replicate]
      simp only [align8] at size metadata tailing ⊢
      omega
  have vertices : ∀ pointers : List Id,
      pointers.length = (vectorTuples options.m vector payload version).length →
      Page.Fits Opaque (.vertex ⟨op.code options.bits vector, some payload, pointers⟩ :
        Tuple op.kind) := by
    intro pointers length
    apply Page.fits_of_size
    obtain ⟨codes, dimension, packed⟩ := packs options.bits vector
    have slices := length_split_left (m := options.m) vector.packed (sameDim ▸ accepted.dim.2)
    have words : (op.code options.bits vector).elements.length ≤ 2 * 469 := by
      rw [packed, Rabitq.length_packBits, dimension, sameDim]
      apply Nat.mul_le_mul accepted.bits.2
      have := accepted.dim.2
      omega
    simp only [vectorTuples, length_append, length_map, length_zipIdx, length_singleton] at length
    simp only [TupleSize.size, Tuple.size, clearSpace, align8]
    omega
  refine ⟨tailing, flatten_split _ _ _, ?_, ?_⟩
  · intro tuple member
    refine ⟨vectors tuple member, fun link proper => ?_⟩
    exact always_appendTuple (vectors tuple member) proper (always_extendWith _ false)
  · intro pointers length
    refine ⟨vertices pointers length, fun skip proper => ?_⟩
    exact always_appendTuple (vertices pointers length) proper always_extendVertices

/-- An operator whose codes are zero. -/
def zeroCodes : Operator where
  kind := .vecf32
  isL2s := true
  code := fun bits vector =>
    ⟨(0, 0, 0), Rabitq.packBits bits (List.replicate vector.dim 0)⟩
  process := fun _ _ _ _ => 0
  access := fun _ _ => 0
  distance := fun _ _ => 0
  closer := fun _ _ _ => true
  one := 0

/-- A vector of three elements and its vertex. -/
theorem insertion_fits_threeElements :
    @Page.Fits (Tuple .vecf32) _ Slotted.firstFree Opaque
      (.vector (.v0 (some ⟨1, by decide⟩) () [1, 2, 3] (List.replicate 32 none) 0)) ∧
    @Page.Fits (Tuple .vecf32) _ Slotted.firstFree Opaque
      (.vertex ⟨⟨(0, 0, 0), Rabitq.packBits 2 [0, 0, 0]⟩, some ⟨1, by decide⟩, [(4, 1)]⟩) := by
  let vector : Vector zeroCodes.kind := ⟨3, [1, 2, 3], (), by decide, rfl⟩
  have packs : zeroCodes.PacksCodes := fun _ vector =>
    ⟨List.replicate vector.dim 0, length_replicate, rfl⟩
  have accepted : Options.Accepted ⟨3, 2, 32⟩ := ⟨by decide, by decide, by decide⟩
  have fits := @insertion_fits zeroCodes Slotted.firstFree packs _ accepted vector rfl
    ⟨1, by decide⟩ 0
  exact ⟨(fits.2.2.1 _ (mem_singleton.mpr rfl)).1, (fits.2.2.2 [(4, 1)] rfl).1⟩

end VectorChord.Vchordg
