import VectorChord.Vchordrq.Probing

/-!
# Slices

A vector is stored in slices, and its key lists one page for every slice.  `split` cuts the
packed elements by their number and `count` tells the number of slices from the dimension;
the two agree, so all keys of an index have one length.
-/

namespace VectorChord.Vchordrq

open Index Paged Rabitq

section
variable {kind : VectorKind}

variable [PageSpace (Tuple kind)]

/-- The tuples of a slice of at most 7680 bytes. -/
theorem fits_slice {slice : List Nat} (size : kind.elementSize * slice.length ≤ 7680)
    (chain : kind.Metadata ⊕ Nat) (payload : Payload) :
    Page.Fits Opaque (centroidSlice chain slice) ∧
      Page.Fits Opaque (vectorSlice payload chain slice) := by
  have metadata : align8 kind.metadataSize ≤ 16 := by cases kind <;> decide
  cases chain with
  | inl value =>
    constructor <;> apply Page.fits_of_size <;>
      simp only [centroidSlice, vectorSlice, TupleSize.size, Tuple.size, clearSpace, align8]
        at metadata ⊢ <;> omega
  | inr head =>
    constructor <;> apply Page.fits_of_size <;>
      simp only [centroidSlice, vectorSlice, TupleSize.size, Tuple.size, clearSpace, align8] <;>
      omega

/-- The tuple of an entry: a word for every 64 dimensions, and a page for every slice. -/
theorem fits_appendableOf {dim : Nat} (supported : dim ≤ 60000) {code : Code} {delta : Word}
    {payload : Payload} {key : List Nat × Nat} (signs : code.signs.length = dim)
    (length : key.1.length = count kind dim) :
    Page.Fits Opaque (.appendable (appendableOf code delta payload key) : Tuple kind) := by
  have pages := count_le kind supported
  have words : (packCode code.signs).length = (dim + 63) / 64 := by
    rw [packCode, length_packWords, signs]
    rfl
  apply Page.fits_of_size
  simp only [TupleSize.size, Tuple.size, clearSpace, appendableOf, words, length, align8]
  omega

/-- The key of a stored vector lists a page for every slice. -/
theorem wlp_vectorsAppend {c : Content (RPage kind)} (first : Nat) (vector : Vector kind)
    (payload : Payload) (skipSearch : Bool) :
    (vectorsAppend first vector payload skipSearch).wlp (fun key _ =>
      key.1.length = count kind vector.dim) c := by
  rw [vectorsAppend, Prog.bind_eq, Prog.wlp_bind]
  apply Prog.wlp_foldlM fun rest (state : (kind.Metadata ⊕ Nat) × List Nat) _ =>
    state.2.length + rest.length = count kind vector.dim
  · rintro slice rest ⟨chain, prefetch⟩ c' counted
    apply Prog.wlp_then (Prog.wlp_trivial _)
    rintro ⟨id, head⟩ c'' _
    exact (Nat.add_right_comm _ _ _).trans counted
  · rintro ⟨chain, prefetch⟩ c' counted
    cases chain with
    | inl value => exact Prog.wlp_panic
    | inr head => exact counted
  · rw [List.length_reverse, length_split kind vector.packed, List.length_nil, zero_add]

end

/-- A vector has as many slices as `count` says, which put together are its elements; the
tuples that are made of them fit on a page.  Reading with a key that `build` got for a
centroid returns the centroid, and every key has the length that the tapes are written for. -/
theorem split_count (op : Operator) [PageSpace (Tuple op.kind)] {dim : Nat}
    (supported : dim ≤ 60000) :
    (∀ vector : Vector op.kind, vector.dim = dim →
      (split op.kind vector.elements).length = count op.kind dim ∧
      (split op.kind vector.elements).flatten = vector.elements ∧
      (∀ slice ∈ split op.kind vector.elements, ∀ (chain : op.kind.Metadata ⊕ Nat) payload,
        Page.Fits Opaque (centroidSlice chain slice) ∧
        Page.Fits Opaque (vectorSlice payload chain slice)) ∧
      (∀ centroid payload (key : List Nat × Nat), key.1.length = count op.kind dim →
        Page.Fits Opaque (.appendable (appendableOf (op.build vector centroid).1
          (op.build vector centroid).2 payload key) : Tuple op.kind)) ∧
      ∀ first payload skipSearch t choices s key s',
        (vectorsAppend first vector payload skipSearch).run t choices s = .done key s' →
        key.1.length = count op.kind dim) ∧
    ∀ (options : Options) (structures : List (Structure op.kind)), options.dim = dim →
      (∀ level ∈ structures, ∀ vector ∈ level.centroids, vector.dim = dim) →
      build op options structures = (buildKeys op options structures).bind (fun _ => .pure ()) ∧
      ∀ t choices pointers s,
        (buildKeys op options structures).run t choices ⟨[], [], []⟩ = .done pointers s →
        ReadBack s.content structures pointers ∧
        ∀ keys ∈ pointers, ∀ key ∈ keys, key.1.length = count op.kind dim := by
  constructor
  · rintro vector rfl
    refine ⟨length_split op.kind vector.packed, flatten_split _ _, ?_, ?_, ?_⟩
    · intro slice member chain payload
      exact fits_slice (size_of_mem_split op.kind member) chain payload
    · intro centroid payload key length
      exact fits_appendableOf supported (op.length_signs vector centroid) length
    · intro first payload skipSearch t choices s key s' returned
      exact Prog.post_of_run returned (wlp_vectorsAppend first vector payload skipSearch)
  · rintro options structures rfl dims
    refine ⟨rfl, ?_⟩
    intro t choices pointers s returned
    obtain ⟨read, _⟩ := Prog.post_of_run returned (wlp_buildKeys op dims rfl)
    refine ⟨read, ?_⟩
    intro keys listed key member
    obtain ⟨level, present, all⟩ := exists_of_mem_right read listed
    obtain ⟨j, _, vector, found, length, _⟩ := exists_of_mem_right all member
    rw [length, dims level present vector (List.mem_of_getElem? found)]

/-- The root and the two leaves of a small index have keys of one page each. -/
theorem split_count_smallStructures :
    ∃ (s : RStore .vecf32) (pointers : List (List (List Nat × Nat))),
      ReadBack s.content smallStructures pointers ∧ pointers.map List.length = [2, 1] ∧
        ∀ keys ∈ pointers, ∀ key ∈ keys, key.1.length = 1 := by
  have written := (@split_count smallOperator Slotted.firstFree 1 (by decide)).2
    ⟨1, false, false, 1⟩ smallStructures rfl wellLayered_smallStructures.dims
  obtain ⟨read, lengths⟩ := written.2 0 (fun _ => 0) _ _ rfl
  exact ⟨_, _, read, rfl, lengths⟩

end VectorChord.Vchordrq
