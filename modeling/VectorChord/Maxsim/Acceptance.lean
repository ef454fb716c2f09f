import VectorChord.Maxsim.Collector
import VectorChord.Maxsim.Roundtrip

/-!
# Frames within the limits of the daemon

The extension checks the dimension of a query only against descriptors, so it encodes a
query of more than 60000 dimensions if there are none, and the daemon rejects the frame.
All other frames within the limits are accepted and read back as they were written.
-/

namespace VectorChord.Maxsim

open Codec Collections Transition List Fallible Option
open Tilemaxsimd (Digest)

/-! ## Descriptors within the limits -/

section

variable {κ : Type} {dimension : Nat} {dtype : TensorDtype} {maxBatchTokens maxBatchBytes : Nat}
  {descriptor : ExternalTensorDescriptor κ} {batch : Batch κ}

theorem writable_of_valid
    (valid : validateExternalForRequest descriptor dimension dtype 4096 512 = .ok ()) :
    Writable dimension dtype descriptor := by
  have reference := improperText_eq_false (validateExternalForRequest_eq_ok valid).2.2.2
  obtain ⟨_, checked⟩ := guard_eq_ok.mp valid
  obtain ⟨_, checked⟩ := guard_eq_ok.mp checked
  obtain ⟨proper, _⟩ := guard_eq_ok.mp checked
  exact ⟨valid, by omega, by omega⟩

theorem totalRows_cons (descriptor : ExternalTensorDescriptor κ)
    (descriptors : List (ExternalTensorDescriptor κ)) :
    totalRows (descriptor :: descriptors) = descriptor.rows + totalRows descriptors :=
  sum_cons

/-- If the totals are within the limits, so are those behind each descriptor. -/
theorem fit_of_within {descriptors : List (ExternalTensorDescriptor κ)}
    (valid : ∀ descriptor ∈ descriptors,
      validateExternalForRequest descriptor dimension dtype 4096 512 = .ok ())
    (within : Within maxBatchTokens maxBatchBytes (batch.totalTokens + totalRows descriptors)
      (batch.declaredTensorBytes + declaredBytes dimension dtype (totalRows descriptors)))
    (count : batch.heapKeys.length + descriptors.length ≤ 65536) :
    Fit dimension dtype maxBatchTokens maxBatchBytes batch descriptors := by
  induction descriptors generalizing batch with
  | nil => trivial
  | cons descriptor descriptors ih =>
    rw [forall_mem_cons] at valid
    rw [totalRows_cons, declaredBytes_add, ← add_assoc, ← add_assoc] at within
    rw [length_cons] at count
    refine ⟨⟨writable_of_valid valid.1, by omega, ?_⟩, ih valid.2 within ?_⟩
    · exact within.mono (Nat.le_add_right _ _) (Nat.le_add_right _ _)
    · rw [Batch.push, length_append, length_singleton]
      omega

end

/-! ## The length of a frame -/

section

variable {κ : Type}

/-- The length of a descriptor. -/
def descriptorLength (descriptor : ExternalTensorDescriptor κ) : Nat :=
  16 + (utf8 descriptor.tensorRef).length + (utf8 descriptor.checksum).length

/-- The length of a request without descriptors. -/
def baseLength (modelContractId : String) (scheduling : Option TileMaxsimScheduling)
    (queryBytes : Nat) : Nat :=
  (if scheduling.isSome then 56 else 44) + (utf8 modelContractId).length +
    (scheduling.elim 0 fun scheduling => (utf8 scheduling.tenant).length) + queryBytes

theorem length_descriptorsBytes (candidateId : Nat)
    (descriptors : List (ExternalTensorDescriptor κ)) :
    (descriptorsBytes candidateId descriptors).length =
      (descriptors.map descriptorLength).sum := by
  induction descriptors generalizing candidateId with
  | nil => rfl
  | cons descriptor descriptors ih =>
    rw [descriptorsBytes, length_append, ih, map_cons, sum_cons]
    simp only [descriptorBytes, descriptorLength, length_append, length_le]
    omega

theorem length_bodyBytes (dtype : TensorDtype) (dimension : Nat) (modelContractId : String)
    (query : List OwnedVector) (descriptors : List (ExternalTensorDescriptor κ))
    (scheduling : Option TileMaxsimScheduling) (timeoutMillis : Nat) :
    24 + (bodyBytes dtype dimension modelContractId query descriptors scheduling
        timeoutMillis).length =
      baseLength modelContractId scheduling (queryBytes query).length +
        (descriptors.map descriptorLength).sum := by
  cases scheduling with
  | none =>
    simp only [bodyBytes, identityBytes, schedulingBytes, tenantBytes, baseLength,
      length_append, length_nil, length_le, length_descriptorsBytes,
      isSome_none, elim_none, Bool.false_eq_true, if_false]
    omega
  | some options =>
    simp only [bodyBytes, identityBytes, schedulingBytes, tenantBytes, baseLength,
      length_append, length_le, length_descriptorsBytes, isSome_some,
      elim_some, if_true]
    omega

end

/-! ## Batches that fit into a request -/

section

variable {κ : Type} {backend : GpuExternalTileMaxsimBackend} {query : List OwnedVector}
    {dtype : TensorDtype} {dimension : Nat} {descriptors : List (ExternalTensorDescriptor κ)}

/-- A batch of descriptors that fits into a request. -/
structure Encodable (backend : GpuExternalTileMaxsimBackend) (query : List OwnedVector)
    (dtype : TensorDtype) (dimension : Nat) (descriptors : List (ExternalTensorDescriptor κ)) :
    Prop where
  identity : validateIdentity backend.modelContractId backend.scheduling = .ok ()
  metadata : tensorMetadata query = .ok (dtype, dimension)
  rows : query.length < 2 ^ 32
  count : descriptors.length ≤ 65536
  valid : ∀ descriptor ∈ descriptors,
    validateExternalForRequest descriptor dimension dtype 4096 512 = .ok ()
  declared : Within backend.maxBatchTokens backend.maxBatchBytes
    (query.length + totalRows descriptors)
    (declaredBytes dimension dtype (query.length + totalRows descriptors))
  frame : Within backend.maxBatchTokens backend.maxBatchBytes query.length
    (baseLength backend.modelContractId backend.scheduling
      (declaredBytes dimension dtype query.length) + (descriptors.map descriptorLength).sum)

section

variable (encodable : Encodable backend query dtype dimension descriptors)

include encodable

theorem Encodable.query_within : Within backend.maxBatchTokens backend.maxBatchBytes query.length
    (declaredBytes dimension dtype query.length) :=
  encodable.declared.mono (Nat.le_add_right _ _)
    (by rw [declaredBytes_add]; exact Nat.le_add_right _ _)

theorem Encodable.length_frame (timeoutMillis : Nat) :
    24 + (bodyBytes dtype dimension backend.modelContractId query descriptors backend.scheduling
        timeoutMillis).length =
      baseLength backend.modelContractId backend.scheduling
        (declaredBytes dimension dtype query.length) + (descriptors.map descriptorLength).sum := by
  have size : (queryBytes query).length = declaredBytes dimension dtype query.length :=
    length_queryBytes (tensorMetadata_eq_ok encodable.metadata).2
  rw [length_bodyBytes, size]

theorem Encodable.encodes (timeoutMillis : Nat) :
    Encodes backend.modelContractId query descriptors backend.maxBatchTokens backend.maxBatchBytes
      backend.scheduling timeoutMillis dtype dimension where
  identity := encodable.identity
  metadata := encodable.metadata
  rows := encodable.rows
  tokens := encodable.frame.tokens_le
  range := encodable.query_within.bytes_range
  declared := encodable.query_within.bytes_le
  contract := by
    have short := improperText_eq_false (validateIdentity_eq_ok encodable.identity).1
    omega
  tenant := by
    cases scheduled : backend.scheduling with
    | none => exact Nat.succ_pos _
    | some options =>
      have proper := ((validateIdentity_eq_ok encodable.identity).2 options scheduled).1
      exact lt_of_le_of_lt (improperText_eq_false proper).2.1 (by decide)
  typed vector member := ((tensorMetadata_eq_ok encodable.metadata).2 vector member).1
  count := encodable.count
  fit := by
    have within := encodable.declared
    rw [declaredBytes_add] at within
    apply fit_of_within encodable.valid within
    simpa using encodable.count
  frame := by
    rw [encodable.length_frame]
    exact le_min encodable.frame.bytes_le encodable.frame.bytes_range

/-- The encoder accepts a batch that fits into a request, and the frame has the length that
was foreseen. -/
theorem Encodable.encode (requestId : UInt64) (timeoutMillis : Nat) :
    ∃ encoded, encodeExternalDescriptors requestId backend.modelContractId query descriptors
        backend.maxBatchTokens backend.maxBatchBytes backend.scheduling timeoutMillis =
          .ok encoded ∧
      encoded.frame.length = baseLength backend.modelContractId backend.scheduling
        (declaredBytes dimension dtype query.length) + (descriptors.map descriptorLength).sum := by
  refine ⟨_, encodeExternalDescriptors_eq_ok.mpr
    ⟨dtype, dimension, encodable.encodes timeoutMillis, rfl⟩, ?_⟩
  rw [requestOf, length_append, length_headerOf, encodable.length_frame]

end

end

/-! ## Acceptance -/

section

variable {κ : Type} {requestId : UInt64} {modelContractId : String} {query : List OwnedVector}
    {descriptors : List (ExternalTensorDescriptor κ)} {digests : List Digest}
    {maxBatchTokens maxBatchBytes : Nat} {scheduling : Option TileMaxsimScheduling}
    {timeoutMillis : Nat} {encoded : EncodedRequest κ} {dtype : TensorDtype} {dimension : Nat}

/-- The daemon accepts every frame of the extension within its limits, unless the frame has
no candidate and more than 60000 dimensions, and reads back what was written. -/
theorem parse_encodeExternalDescriptors
    (done : encodeExternalDescriptors requestId modelContractId query descriptors maxBatchTokens
      maxBatchBytes scheduling timeoutMillis = .ok encoded)
    (metadata : tensorMetadata query = .ok (dtype, dimension))
    (finite : ∀ vector ∈ query, vector.Finite)
    (addressed : List.Forall₂ Addresses descriptors digests)
    (tokens : query.length + totalRows descriptors ≤ 1000000)
    (bytes : (query.length + totalRows descriptors) * dimension * dtype.scalarBytes ≤
      1024 * 1024 * 1024)
    (checked : descriptors ≠ [] ∨ dimension ≤ 60000) :
    ∃ request, Tilemaxsimd.parse encoded.frame = .ok request ∧
      request.protocolVersion = encoded.version ∧ request.requestId = requestId.toNat ∧
      request.tenant = tenantOf scheduling ∧ request.priority = priorityOf scheduling ∧
      request.timeoutMs = timeoutOf scheduling timeoutMillis ∧
      request.queryRows = query.length ∧ request.dimension = dimension ∧
      request.dtype = dtype.code ∧ request.query = queryBytes query ∧
      request.candidates = (descriptors.zip digests).mapIdx fun index candidate =>
        ⟨index, modelContractId, candidate.2, candidate.1.rows, dimension, dtype.code⟩ := by
  obtain ⟨_, _, encodes, rfl⟩ := encodeExternalDescriptors_eq_ok.mp done
  cases metadata.symm.trans encodes.metadata
  have small : dimension ≤ 60000 := by
    rcases checked with some_ | small
    · rcases exists_mem_of_ne_nil _ some_ with ⟨descriptor, member⟩
      exact (validateExternalForRequest_eq_ok (encodes.fit.valid descriptor member)).2.2.1
    · exact small
  rcases parseBody_readsAll encodes small finite addressed tokens bytes with
    ⟨request, reads, version, fields⟩
  refine ⟨request, ?_, version, ?_⟩
  · rw [encodes.parse_eq]
    exact congrArg Prod.fst (reads.run encodes.body_le)
  · rcases fields with ⟨id, tenant, priority, timeout, rows, dims, type, bits, candidates⟩
    refine ⟨id, tenant, priority, timeout, rows, dims, type, bits, ?_⟩
    rw [candidates, candidatesFrom_eq_mapIdx]
    simp only [zero_add]

end

/-- A digest, the descriptor of its tensor and a query of one dimension. -/
def sampleDigest : Digest :=
  ⟨"0123456789abcdef0123456789abcdef0123456789abcdef0123456789abcdef", by decide +kernel⟩

def sampleDescriptor : ExternalTensorDescriptor Nat where
  heapKey := 5
  tensorRef := "sha256://" ++ sampleDigest.1
  rows := 2
  dimension := 1
  dtype := .f32
  checksum := "sha256:" ++ sampleDigest.1

def sampleQuery : List OwnedVector := [.vecf32 ⟨[0x3f800000], by decide, by decide⟩]

/-- Descriptors of two tensors. -/
def sampleDescriptors : List (ExternalTensorDescriptor Nat) :=
  [sampleDescriptor, { sampleDescriptor with heapKey := 6, rows := 3 }]

/-- A query of two rows and two candidates. -/
theorem parse_sampleQuery :
    ∃ encoded request, encodeExternalDescriptors 7 "m" (sampleQuery ++ sampleQuery)
        sampleDescriptors 1000 1000 (some ⟨"tenant", -3⟩) 0 = .ok encoded ∧
      Tilemaxsimd.parse encoded.frame = .ok request ∧ request.priority = -3 ∧
      request.timeoutMs = 1 ∧ request.query = [0, 0, 128, 63, 0, 0, 128, 63] ∧
      request.candidates =
        [⟨0, "m", sampleDigest, 2, 1, 1⟩, ⟨1, "m", sampleDigest, 3, 1, 1⟩] := by
  have succeeds : (encodeExternalDescriptors 7 "m" (sampleQuery ++ sampleQuery)
      sampleDescriptors 1000 1000 (some ⟨"tenant", -3⟩) 0).toOption.isSome = true := by
    decide +kernel
  cases done : encodeExternalDescriptors 7 "m" (sampleQuery ++ sampleQuery) sampleDescriptors
      1000 1000 (some ⟨"tenant", -3⟩) 0 with
  | error error =>
    rw [done] at succeeds
    cases succeeds
  | ok encoded =>
    have finite : ∀ vector ∈ sampleQuery, vector.Finite := by
      simp only [sampleQuery, mem_singleton, forall_eq, OwnedVector.Finite]
      decide
    rcases @parse_encodeExternalDescriptors _ _ _ _ _ [sampleDigest, sampleDigest] _ _ _ _ _ .f32
      1 done rfl (forall_mem_append.mpr ⟨finite, finite⟩)
      (.cons ⟨rfl, rfl⟩ (.cons ⟨rfl, rfl⟩ .nil)) (by decide) (by decide) (.inr (by decide)) with
      ⟨request, parsed, _, _, _, priority, timeout, _, _, _, query, candidates⟩
    exact ⟨encoded, request, rfl, parsed, priority, timeout, query.trans (by decide +kernel),
      candidates⟩

/-! ## Rejection -/

section

variable {κ : Type} {modelContractId : String} {query : List OwnedVector}
    {descriptors : List (ExternalTensorDescriptor κ)} {maxBatchTokens maxBatchBytes : Nat}
    {scheduling : Option TileMaxsimScheduling} {timeoutMillis : Nat} {dtype : TensorDtype}
    {dimension : Nat}

/-- The daemon rejects every frame with more than 60000 dimensions. -/
theorem Encodes.parse_wide (encodes : Encodes modelContractId query descriptors maxBatchTokens
      maxBatchBytes scheduling timeoutMillis dtype dimension) (wide : 60000 < dimension)
    (requestId : UInt64) :
    Tilemaxsimd.parse (requestOf requestId modelContractId query descriptors scheduling
      timeoutMillis dtype dimension).frame = .error "invalid tensor shape" := by
  have size : Tilemaxsimd.tensorBytes query.length dimension dtype.code =
      .error "invalid tensor shape" := by
    cases dtype <;> exact if_pos (.inr (.inr wide))
  have rejects : FailsBefore (fun _ => True) (Fallible.lift
      (Tilemaxsimd.tensorBytes query.length dimension dtype.code)) [] "invalid tensor shape" := by
    intro front tail _ _
    rw [step_lift, size]
  have fails : FailsBefore (fun _ => True) (Tilemaxsimd.parseBody (versionOf scheduling)
      requestId.toNat) _ "invalid tensor shape" :=
    (parsePreamble_reads encodes).bind_fails rejects.bind
  have whole := fails [] (queryBytes query ++ descriptorsBytes 0 descriptors) trivial
  rw [nil_append, append_nil] at whole
  rw [encodes.parse_eq]
  exact whole encodes.body_le

end

theorem tensorMetadata_singleton (vector : Vect 32) :
    tensorMetadata [.vecf32 vector] = .ok (.f32, vector.slice.length) := by
  simp [tensorMetadata, OwnedVector.dtype, checkMetadata, OwnedVector.dim]
  rfl

/-- A query of one vector is encoded without candidates. -/
theorem encodes_singleton (vector : Vect 32) :
    @Encodes Unit "m" [.vecf32 vector] [] 1000 1048576 none 1000 .f32 vector.slice.length := by
  have small := vector.dim_le
  have limit : 1048576 ≤ usizeMax := by decide
  have contract : (utf8 "m").length = 1 := rfl
  have encodable : @Encodable Unit ⟨"m", 0, 1000, 1048576, none⟩ [.vecf32 vector] .f32
      vector.slice.length [] := by
    refine ⟨rfl, tensorMetadata_singleton vector, by simp, by decide, nofun, ?_, ?_⟩
    · constructor <;> simp [declaredBytes, totalRows, TensorDtype.scalarBytes] <;> omega
    · constructor <;> simp [declaredBytes, baseLength, TensorDtype.scalarBytes, contract] <;> omega
  exact encodable.encodes 1000

/-- A vector of 60001 zeros. -/
def wideVector : Vect 32 where
  slice := List.replicate 60001 0
  dim_pos := by rw [length_replicate]; decide
  dim_le := by rw [length_replicate]; decide

/-- Its query is encoded, without candidates and within all totals, and rejected. -/
theorem parse_wideVector :
    (∀ vector ∈ [OwnedVector.vecf32 wideVector], vector.Finite) ∧
    ∃ encoded : EncodedRequest Unit,
      encodeExternalDescriptors 7 "m" [.vecf32 wideVector] [] 1000 1048576 none 1000 =
        .ok encoded ∧
      Tilemaxsimd.parse encoded.frame = .error "invalid tensor shape" := by
  constructor
  · intro vector member
    rw [mem_singleton.mp member]
    intro value inside
    rw [(mem_replicate.mp inside).2]
    decide
  · have encodes := encodes_singleton wideVector
    refine ⟨_, encodeExternalDescriptors_eq_ok.mpr ⟨_, _, encodes, rfl⟩, encodes.parse_wide ?_ 7⟩
    exact Nat.lt_of_lt_of_eq (by decide) length_replicate.symm

end VectorChord.Maxsim
