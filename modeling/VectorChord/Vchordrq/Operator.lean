import VectorChord.Index.Page

/-!
# Vectors and codes

The four vector kinds of the index, how a stored vector is cut into slices that fit
on a page, and the code that quantization assigns to it.  Floating point values are
kept as uninterpreted words; the operator only promises that a code has one sign
bit for every dimension.
-/

namespace VectorChord.Vchordrq

open Index List

/-- Bit pattern of an `f32`. -/
abbrev Word := Nat

/-- `NonZero<u64>`. -/
abbrev Payload := { value : Nat // value ≠ 0 }

inductive VectorKind where
  | vecf32
  | vecf16
  | rabitq8
  | rabitq4
  deriving DecidableEq, Repr

namespace VectorKind

/-- `size_of::<Vector::Element>()`. -/
def elementSize : VectorKind → Nat
  | .vecf32 => 4
  | .vecf16 => 2
  | .rabitq8 => 1
  | .rabitq4 => 1

/-- `Vector::Metadata`: nothing, or four floats. -/
@[reducible] def Metadata : VectorKind → Type
  | .vecf32 => Unit
  | .vecf16 => Unit
  | .rabitq8 => Fin 4 → Word
  | .rabitq4 => Fin 4 → Word

/-- `size_of::<Vector::Metadata>()`. -/
def metadataSize : VectorKind → Nat
  | .vecf32 => 0
  | .vecf16 => 0
  | .rabitq8 => 16
  | .rabitq4 => 16

/-- Number of stored elements of a vector of the given dimension. -/
def packedLength : VectorKind → Nat → Nat
  | .rabitq4, dim => (dim + 1) / 2
  | _, dim => dim

end VectorKind

/-- Cut a list into chunks of `size`, the last one possibly shorter. -/
def chunks {α : Type} (size : Nat) (elements : List α) : List (List α) :=
  (List.range ((elements.length + size - 1) / size)).map fun i =>
    (elements.drop (i * size)).take size

/-- The common shape of `split`: one slice, two slices cut at `cut`, or chunks. -/
def splitWith {α : Type} (one two cut chunk : Nat) (elements : List α) : List (List α) :=
  if elements.length ≤ one then [elements]
  else if elements.length ≤ two then [elements.take cut, elements.drop cut]
  else chunks chunk elements

/-- The common shape of `count`. -/
def countWith (one two chunk : Nat) (dim : Nat) : Nat :=
  if dim ≤ one then 1 else if dim ≤ two then 2 else (dim + chunk - 1) / chunk

/-- `Vector::split` on the stored elements. -/
def split {α : Type} : VectorKind → List α → List (List α)
  | .vecf32 => splitWith 960 1280 640 1920
  | .vecf16 => splitWith 1920 2560 1280 3840
  | .rabitq8 => splitWith 3840 5120 1280 7680
  | .rabitq4 => splitWith 3840 5120 1280 7680

/-- `Vector::count`: the number of slices of a vector of the given dimension. -/
def count : VectorKind → Nat → Nat
  | .vecf32 => countWith 960 1280 1920
  | .vecf16 => countWith 1920 2560 3840
  | .rabitq8 => countWith 3840 5120 7680
  | .rabitq4 => countWith 7680 10240 15360

/-- A vector as it is stored.  It has at least one dimension and as many elements as
its kind packs that dimension into. -/
structure Vector (kind : VectorKind) where
  dim : Nat
  elements : List Nat
  metadata : kind.Metadata
  positive : 0 < dim
  packed : elements.length = kind.packedLength dim

/-- `rabitq::bit::CodeMetadata`. -/
structure CodeMetadata where
  disU2 : Word
  factorCnt : Word
  factorIp : Word
  factorErr : Word
  deriving DecidableEq, Repr

/-- `rabitq::bit::Code`. -/
structure Code where
  metadata : CodeMetadata
  signs : List Bool
  deriving DecidableEq, Repr

/-- Elements and metadata of a stored vector. -/
abbrev Stored (kind : VectorKind) := List Nat × kind.Metadata

/-- An operator: what it quantizes a vector to, given the centroid of its cell if
residuals are quantized, and the norm of a vector. -/
structure Operator where
  kind : VectorKind
  build : Vector kind → Option (Stored kind) → Code × Word
  norm : Vector kind → Word
  length_signs : ∀ vector centroid, (build vector centroid).1.signs.length = vector.dim

/-! ## Splitting -/

section
variable {α : Type}

theorem length_chunks (size : Nat) (elements : List α) :
    (chunks size elements).length = (elements.length + size - 1) / size := by
  simp [chunks]

theorem flatten_map_range_chunk (size : Nat) (elements : List α) (count : Nat) :
    ((List.range count).map fun i => (elements.drop (i * size)).take size).flatten =
      elements.take (count * size) := by
  induction count with
  | zero => simp
  | succ count ih =>
    rw [range_succ, map_append, flatten_append, ih, Nat.succ_mul, take_add]
    simp

theorem flatten_chunks {size : Nat} (positive : 0 < size) (elements : List α) :
    (chunks size elements).flatten = elements := by
  rw [chunks, flatten_map_range_chunk]
  apply take_of_length_le
  have := Nat.div_add_mod (elements.length + size - 1) size
  have := Nat.mod_lt (elements.length + size - 1) positive
  rw [mul_comm]
  omega

theorem length_of_mem_chunks {size : Nat} {elements slice : List α}
    (member : slice ∈ chunks size elements) : slice.length ≤ size := by
  simp only [chunks, mem_map] at member
  rcases member with ⟨i, _, rfl⟩
  simp

theorem flatten_splitWith {one two cut chunk : Nat} (positive : 0 < chunk)
    (elements : List α) : (splitWith one two cut chunk elements).flatten = elements := by
  unfold splitWith
  split_ifs
  · simp
  · simp
  · exact flatten_chunks positive elements

/-- The slices of a vector are its elements in order. -/
theorem flatten_split (kind : VectorKind) (elements : List α) :
    (split kind elements).flatten = elements := by
  cases kind <;> exact flatten_splitWith (by decide) elements

theorem length_split (kind : VectorKind) {dim : Nat} {elements : List α}
    (packed : elements.length = kind.packedLength dim) :
    (split kind elements).length = count kind dim := by
  cases kind <;> simp only [VectorKind.packedLength] at packed <;>
    simp only [split, count, splitWith, countWith, packed] <;>
    split_ifs <;> simp only [length_cons, length_nil, length_chunks, packed] <;>
    omega

/-- No slice takes more than 7680 bytes. -/
theorem size_of_mem_split (kind : VectorKind) {elements slice : List α}
    (member : slice ∈ split kind elements) :
    kind.elementSize * slice.length ≤ 7680 := by
  have bound : ∀ (limit : Nat) {one two cut chunk : Nat}, one ≤ limit → two ≤ cut + limit →
      cut ≤ limit → chunk ≤ limit → slice ∈ splitWith one two cut chunk elements →
      slice.length ≤ limit := by
    intro limit one two cut chunk _ _ _ _ inside
    unfold splitWith at inside
    split_ifs at inside
    · simp only [mem_singleton] at inside
      subst inside
      omega
    · simp only [mem_cons, not_mem_nil, or_false] at inside
      rcases inside with rfl | rfl
      · rw [length_take]
        omega
      · rw [length_drop]
        omega
    · exact (length_of_mem_chunks inside).trans (by omega)
  cases kind <;> simp only [split] at member <;> simp only [VectorKind.elementSize]
  case' vecf32 => have := bound 1920 (by decide) (by decide) (by decide) (by decide) member
  case' vecf16 => have := bound 3840 (by decide) (by decide) (by decide) (by decide) member
  case' rabitq8 | rabitq4 =>
    have := bound 7680 (by decide) (by decide) (by decide) (by decide) member
  all_goals omega

end

/-- A vector of a supported dimension has at most 32 slices. -/
theorem count_le (kind : VectorKind) {dim : Nat} (supported : dim ≤ 60000) :
    count kind dim ≤ 32 := by
  cases kind <;> simp only [count, countWith] <;> split_ifs <;> omega

end VectorChord.Vchordrq
