import VectorChord.Tilemaxsimd.Protocol

/-!
# Requests of the extension

`encode_external_descriptors` writes a query and the descriptors of its candidates into a
frame for the daemon.  The number of candidates and the header are filled in at the end.
-/

namespace VectorChord.Maxsim

open Codec Collections Transition

/-! ## Vectors and descriptors -/

/-- `TensorDtype` and `ExternalTensorDtype`. -/
inductive TensorDtype where
  | f32
  | f16
  deriving DecidableEq, Repr

/-- The number of a type in requests. -/
def TensorDtype.code : TensorDtype → Nat
  | .f32 => 1
  | .f16 => 2

/-- Bytes of a scalar. -/
def TensorDtype.scalarBytes : TensorDtype → Nat
  | .f32 => 4
  | .f16 => 2

/-- `VectOwned`: the bits of 1 to 65535 scalars. -/
structure Vect (width : Nat) where
  slice : List (BitVec width)
  dim_pos : 1 ≤ slice.length
  dim_le : slice.length ≤ 65535

/-- `OwnedVector`.  The codes of quantized vectors are left out. -/
inductive OwnedVector where
  | vecf32 (vector : Vect 32)
  | vecf16 (vector : Vect 16)
  | rabitq8 (dim : Nat)
  | rabitq4 (dim : Nat)

/-- `OwnedVector::dim`. -/
def OwnedVector.dim : OwnedVector → Nat
  | .vecf32 vector => vector.slice.length
  | .vecf16 vector => vector.slice.length
  | .rabitq8 dim => dim
  | .rabitq4 dim => dim

/-- The type of the scalars of a vector. -/
def OwnedVector.dtype : OwnedVector → Option TensorDtype
  | .vecf32 _ => some .f32
  | .vecf16 _ => some .f16
  | .rabitq8 _ => none
  | .rabitq4 _ => none

/-- `ExternalTensorDescriptor`, as far as requests use it. -/
structure ExternalTensorDescriptor (κ : Type) where
  heapKey : κ
  tensorRef : String
  rows : Nat
  dimension : Nat
  dtype : TensorDtype
  checksum : String

/-- `TileMaxsimScheduling`. -/
structure TileMaxsimScheduling where
  tenant : String
  priority : Int
  deriving DecidableEq, Repr

/-- `RerankError`. -/
inductive RerankError where
  | invalidDescriptor (message : String)
  | configuration (message : String)
  | requestTooLarge
  | tensorMismatch
  | modelContractMismatch
  | registry (message : String)
  | unsupportedTensorKind
  | transport (message : String)
  | protocol (message : String)
  | remote (message : String)
  deriving DecidableEq, Repr

/-! ## Writer -/

/-- `BoundedWriter`. -/
structure BoundedWriter where
  bytes : List UInt8
  limit : Nat
  deriving DecidableEq, Repr

namespace BoundedWriter

/-- `len`. -/
def length : Fallible RerankError BoundedWriter Nat := do
  let self ← get
  pure self.bytes.length

/-- `ensure`. -/
def ensure (additional : Nat) : Fallible RerankError BoundedWriter Unit := do
  let self ← get
  match checkedAdd self.bytes.length additional with
  | none => throw .requestTooLarge
  | some size => Fallible.require (size ≤ self.limit) .requestTooLarge

/-- `bytes`. -/
def write (bytes : List UInt8) : Fallible RerankError BoundedWriter Unit := do
  ensure bytes.length
  modify fun self => { self with bytes := self.bytes ++ bytes }

/-- `zeros`. -/
def zeros (count : Nat) : Fallible RerankError BoundedWriter Unit := do
  ensure count
  modify fun self => { self with bytes := self.bytes ++ List.replicate count 0 }

/-- `u8`, `u16` and `u32`. -/
def unsigned (width value : Nat) : Fallible RerankError BoundedWriter Unit :=
  write (le width value)

/-- `i32`. -/
def signed (width : Nat) (value : Int) : Fallible RerankError BoundedWriter Unit :=
  write (le width (BitVec.ofInt (8 * width) value).toNat)

/-- `patch_bytes`. -/
def patchBytes (self : BoundedWriter) (offset : Nat) (bytes : List UInt8) : BoundedWriter :=
  { self with
    bytes := self.bytes.take offset ++ bytes ++ self.bytes.drop (offset + bytes.length) }

/-- `patch_u16`, `patch_u32` and `patch_u64`. -/
def patch (self : BoundedWriter) (offset width value : Nat) : BoundedWriter :=
  self.patchBytes offset (le width value)

end BoundedWriter

open BoundedWriter (signed unsigned write zeros)

/-! ## Encoding -/

/-- `u32::try_from`. -/
def tryU32 (value : Nat) : Except RerankError Nat :=
  if value < 2 ^ 32 then pure value else throw .requestTooLarge

/-- `tensor_bytes`. -/
def tensorBytes (rows dimension : Nat) (dtype : TensorDtype) : Except RerankError Nat :=
  match (checkedMul rows dimension).bind fun elements => checkedMul elements dtype.scalarBytes with
  | none => throw .requestTooLarge
  | some bytes => pure bytes

/-- The loop of `tensor_metadata`. -/
def checkMetadata (dtype : TensorDtype) (dimension : Nat) : List OwnedVector →
    Except RerankError Unit
  | [] => pure ()
  | vector :: vectors =>
    match vector.dtype with
    | none => throw .unsupportedTensorKind
    | some thisDtype =>
      if thisDtype ≠ dtype ∨ vector.dim ≠ dimension then throw .tensorMismatch
      else checkMetadata dtype dimension vectors

/-- `tensor_metadata`. -/
def tensorMetadata (vectors : List OwnedVector) : Except RerankError (TensorDtype × Nat) :=
  match vectors with
  | [] => throw .tensorMismatch
  | first :: _ =>
    match first.dtype with
    | none => throw .unsupportedTensorKind
    | some dtype => do
      checkMetadata dtype first.dim vectors
      pure (dtype, first.dim)

/-- `encode_tensor_values` writes scalar after scalar. -/
def encodeScalars {width : Nat} (bytes : Nat) :
    List (BitVec width) → Fallible RerankError BoundedWriter Unit
  | [] => pure ()
  | value :: values => do
    unsigned bytes value.toNat
    encodeScalars bytes values

/-- `encode_tensor_values` for one vector. -/
def encodeVector (dtype : TensorDtype) (vector : OwnedVector) :
    Fallible RerankError BoundedWriter Unit :=
  match dtype, vector with
  | .f32, .vecf32 vector => encodeScalars 4 vector.slice
  | .f16, .vecf16 vector => encodeScalars 2 vector.slice
  | _, _ => throw .tensorMismatch

/-- `encode_tensor_values`. -/
def encodeTensorValues (dtype : TensorDtype) :
    List OwnedVector → Fallible RerankError BoundedWriter Unit
  | [] => pure ()
  | vector :: vectors => do
    encodeVector dtype vector
    encodeTensorValues dtype vectors

/-- The text of an identifier is empty, too long or has control characters. -/
def improperText (maximum : Nat) (text : String) : Bool :=
  (utf8 text).isEmpty || decide (maximum < (utf8 text).length) ||
    text.toList.any Tilemaxsimd.isControl

section

variable {κ : Type}

/-- `validate_external_for_request`. -/
def validateExternalForRequest (descriptor : ExternalTensorDescriptor κ) (dimension : Nat)
    (dtype : TensorDtype) (maxTensorRefBytes maxChecksumBytes : Nat) : Except RerankError Unit :=
  if descriptor.rows = 0 ∨ 65536 < descriptor.rows ∨ 60000 < dimension ∨
      descriptor.dimension ≠ dimension ∨ descriptor.dtype ≠ dtype then
    throw .tensorMismatch
  else if improperText maxTensorRefBytes descriptor.tensorRef then
    throw (.invalidDescriptor
      "tensor reference is empty, oversized, or contains control characters")
  else if maxChecksumBytes < (utf8 descriptor.checksum).length ∨
      (Tilemaxsimd.stripPrefix "sha256:" descriptor.checksum).any Tilemaxsimd.isDigest = false then
    throw (.invalidDescriptor "tensor checksum must be a lowercase sha256 digest")
  else pure ()

/-- What the loop over descriptors keeps: tokens, bytes and heap keys. -/
structure Batch (κ : Type) where
  totalTokens : Nat
  declaredTensorBytes : Nat
  heapKeys : List κ

/-- A sum that has to be in range. -/
def addOr (left right : Nat) : Except RerankError Nat :=
  (checkedAdd left right).elim (throw .requestTooLarge) pure

/-- One iteration of the loop over descriptors. -/
def encodeDescriptor (dimension : Nat) (dtype : TensorDtype) (maxBatchTokens maxBatchBytes : Nat)
    (batch : Batch κ) (descriptor : ExternalTensorDescriptor κ) :
    Fallible RerankError BoundedWriter (Batch κ) := do
  Fallible.lift (validateExternalForRequest descriptor dimension dtype 4096 512)
  let totalTokens ← Fallible.lift (addOr batch.totalTokens descriptor.rows)
  Fallible.require (totalTokens ≤ maxBatchTokens) .requestTooLarge
  let bytes ← Fallible.lift (tensorBytes descriptor.rows dimension dtype)
  let declaredTensorBytes ← Fallible.lift (addOr batch.declaredTensorBytes bytes)
  Fallible.require (declaredTensorBytes ≤ maxBatchBytes) .requestTooLarge
  let candidateId ← Fallible.lift (tryU32 batch.heapKeys.length)
  unsigned 4 candidateId
  unsigned 4 descriptor.rows
  let referenceBytes ← Fallible.lift (tryU32 (utf8 descriptor.tensorRef).length)
  unsigned 4 referenceBytes
  let checksumBytes ← Fallible.lift (tryU32 (utf8 descriptor.checksum).length)
  unsigned 4 checksumBytes
  write (utf8 descriptor.tensorRef)
  write (utf8 descriptor.checksum)
  pure ⟨totalTokens, declaredTensorBytes, batch.heapKeys ++ [descriptor.heapKey]⟩

/-- The loop over descriptors. -/
def encodeDescriptors (dimension : Nat) (dtype : TensorDtype) (maxBatchTokens maxBatchBytes : Nat)
    (batch : Batch κ) :
    List (ExternalTensorDescriptor κ) → Fallible RerankError BoundedWriter (Batch κ)
  | [] => pure batch
  | descriptor :: descriptors => do
    let batch ← encodeDescriptor dimension dtype maxBatchTokens maxBatchBytes batch descriptor
    encodeDescriptors dimension dtype maxBatchTokens maxBatchBytes batch descriptors

end

/-- Priority, timeout and length of the tenant.  Returns the version. -/
def encodeScheduling (scheduling : Option TileMaxsimScheduling) (timeoutMillis : Nat) :
    Fallible RerankError BoundedWriter Nat :=
  match scheduling with
  | none => pure Tilemaxsimd.versionExternal
  | some scheduling => do
    signed 4 scheduling.priority
    unsigned 4 (min (max timeoutMillis 1) 600000)
    let tenantBytes ← Fallible.lift (tryU32 (utf8 scheduling.tenant).length)
    unsigned 4 tenantBytes
    pure Tilemaxsimd.versionScheduledExternal

def encodeTenant : Option TileMaxsimScheduling → Fallible RerankError BoundedWriter Unit
  | none => pure ()
  | some scheduling => write (utf8 scheduling.tenant)

/-- `EncodedRequest`. -/
structure EncodedRequest (κ : Type) where
  frame : List UInt8
  heapKeys : List κ
  version : Nat

/-- The identity of a request. -/
def validateIdentity (modelContractId : String) (scheduling : Option TileMaxsimScheduling) :
    Except RerankError Unit :=
  if improperText 512 modelContractId then
    throw (.invalidDescriptor "model contract is empty, oversized, or contains control characters")
  else if scheduling.any (fun scheduling => improperText 256 scheduling.tenant ||
      !decide (-100 ≤ scheduling.priority ∧ scheduling.priority ≤ 100)) then
    throw (.configuration "TileMaxSim scheduler tenant or priority is invalid")
  else pure ()

/-- The header, filled in when the body is complete. -/
def patchHeader (self : BoundedWriter) (requestId version bodyLen : Nat) : BoundedWriter :=
  ((((self.patchBytes 0 Tilemaxsimd.magic).patch 4 2 version).patch 6 2 1).patch 8 8
    requestId).patch 16 8 bodyLen

/-- The number of candidates and the header. -/
def encodeHeader (requestId : UInt64) (version candidateCountOffset candidateCount : Nat) :
    Fallible RerankError BoundedWriter Unit := do
  modify fun self => self.patch candidateCountOffset 4 candidateCount
  let length ← BoundedWriter.length
  let bodyLen ← Fallible.lift
    ((checkedSub length 24).elim (throw (.protocol "invalid request length")) pure)
  modify fun self => patchHeader self requestId.toNat version bodyLen

/-- Room for the header, and the shape of the query. -/
def encodeShape (dimension queryRows : Nat) : Fallible RerankError BoundedWriter Unit := do
  zeros 24
  unsigned 4 dimension
  unsigned 4 queryRows

/-- Room for the number of candidates, and what follows.  Returns the version and what the
loop over descriptors has collected. -/
def encodeRest {κ : Type} (modelContractId : String) (query : List OwnedVector)
    (descriptors : List (ExternalTensorDescriptor κ)) (maxBatchTokens maxBatchBytes : Nat)
    (scheduling : Option TileMaxsimScheduling) (timeoutMillis : Nat) (dtype : TensorDtype)
    (dimension declaredTensorBytes : Nat) :
    Fallible RerankError BoundedWriter (Nat × Batch κ) := do
  unsigned 4 0
  unsigned 1 dtype.code
  unsigned 1 1
  unsigned 2 0
  let contractBytes ← Fallible.lift (tryU32 (utf8 modelContractId).length)
  unsigned 4 contractBytes
  let version ← encodeScheduling scheduling timeoutMillis
  write (utf8 modelContractId)
  encodeTenant scheduling
  encodeTensorValues dtype query
  Fallible.require (descriptors.length ≤ 65536) .requestTooLarge
  let batch ← encodeDescriptors dimension dtype maxBatchTokens maxBatchBytes
    ⟨query.length, declaredTensorBytes, []⟩ descriptors
  pure (version, batch)

/-- `encode_external_descriptors`, with the writer as state. -/
def encodeFrame {κ : Type} (requestId : UInt64) (modelContractId : String)
    (query : List OwnedVector) (descriptors : List (ExternalTensorDescriptor κ))
    (maxBatchTokens maxBatchBytes : Nat) (scheduling : Option TileMaxsimScheduling)
    (timeoutMillis : Nat) : Fallible RerankError BoundedWriter (EncodedRequest κ) := do
  Fallible.lift (validateIdentity modelContractId scheduling)
  let (dtype, dimension) ← Fallible.lift (tensorMetadata query)
  let queryRows ← Fallible.lift (tryU32 query.length)
  Fallible.require (query.length ≤ maxBatchTokens) .requestTooLarge
  let declaredTensorBytes ← Fallible.lift (tensorBytes queryRows dimension dtype)
  Fallible.require (declaredTensorBytes ≤ maxBatchBytes) .requestTooLarge
  encodeShape dimension queryRows
  let candidateCountOffset ← BoundedWriter.length
  let (version, batch) ← encodeRest modelContractId query descriptors maxBatchTokens maxBatchBytes
    scheduling timeoutMillis dtype dimension declaredTensorBytes
  let candidateCount ← Fallible.lift (tryU32 batch.heapKeys.length)
  encodeHeader requestId version candidateCountOffset candidateCount
  let self ← get
  pure ⟨self.bytes, batch.heapKeys, version⟩

/-- `encode_external_descriptors`. -/
def encodeExternalDescriptors {κ : Type} (requestId : UInt64) (modelContractId : String)
    (query : List OwnedVector) (descriptors : List (ExternalTensorDescriptor κ))
    (maxBatchTokens maxBatchBytes : Nat) (scheduling : Option TileMaxsimScheduling)
    (timeoutMillis : Nat) : Except RerankError (EncodedRequest κ) :=
  ((encodeFrame requestId modelContractId query descriptors maxBatchTokens maxBatchBytes scheduling
    timeoutMillis).step ⟨[], maxBatchBytes⟩).1

end VectorChord.Maxsim
