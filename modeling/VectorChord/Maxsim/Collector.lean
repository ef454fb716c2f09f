import VectorChord.Maxsim.Response

/-!
# Batches of candidates

A rerank of external tensors is sent to the daemon in batches.  `collect_external_batch`
takes descriptors from their source as long as the next request stays within the limits of
tokens and bytes, and carries the first one that does not fit over to the next batch.
`rerank_batches` sends one request for each batch until there is nothing left.
-/

namespace VectorChord.Maxsim

open Codec Collections Transition

/-- `GpuExternalTileMaxsimBackend`, without its transport.  The timeout is in
nanoseconds. -/
structure GpuExternalTileMaxsimBackend where
  modelContractId : String
  timeout : Nat
  maxBatchTokens : Nat
  maxBatchBytes : Nat
  scheduling : Option TileMaxsimScheduling
  deriving DecidableEq, Repr

/-- `external_request_base_bytes`. -/
def externalRequestBaseBytes (modelContractId : String)
    (scheduling : Option TileMaxsimScheduling) (queryBytes : Nat) : Except RerankError Nat :=
  let fixed := if scheduling.isSome then 56 else 44
  let tenant := scheduling.elim 0 fun scheduling => (utf8 scheduling.tenant).length
  match ((checkedAdd fixed (utf8 modelContractId).length).bind fun size =>
      checkedAdd size tenant).bind fun size => checkedAdd size queryBytes with
  | none => throw .requestTooLarge
  | some size => pure size

section

variable {χ κ ω τ γ : Type}

/-! ## Descriptors -/

/-- `CandidateTensorDescriptorSource::fetch`. -/
abbrev Fetch (ω χ κ : Type) :=
  χ → Fallible RerankError ω (Option (ExternalTensorDescriptor κ))

/-- Where descriptors come from: the candidates ahead, the source, and a descriptor that was
carried over. -/
structure Supply (ω χ κ : Type) where
  candidates : List χ
  source : ω
  pending : Option (ExternalTensorDescriptor κ)

/-- The loop over candidates up to the first one that has a descriptor. -/
def fetchFirst (fetch : Fetch ω χ κ) :
    List χ → Fallible RerankError ω (Option (ExternalTensorDescriptor κ) × List χ)
  | [] => pure (none, [])
  | candidate :: candidates => do
    match ← fetch candidate with
    | some descriptor => pure (some descriptor, candidates)
    | none => fetchFirst fetch candidates

/-- The next descriptor: the one that was carried over, or one from the source. -/
def nextDescriptor (fetch : Fetch ω χ κ) :
    Fallible RerankError (Supply ω χ κ) (Option (ExternalTensorDescriptor κ)) := do
  let supply ← get
  match supply.pending with
  | some descriptor => do
    modify fun supply => { supply with pending := none }
    pure (some descriptor)
  | none => do
    let (found, candidates) ← Fallible.focus Supply.source
      (fun supply source => { supply with source := source })
      (fetchFirst fetch supply.candidates)
    modify fun supply => { supply with candidates := candidates }
    pure found

/-! ## Batches -/

/-- What `collect_external_batch` keeps track of. -/
structure Collected (κ : Type) where
  batch : List (ExternalTensorDescriptor κ)
  totalTokens : Nat
  declaredTensorBytes : Nat
  frameBytes : Nat

/-- The batch with one more descriptor. -/
def Collected.push (dimension : Nat) (dtype : TensorDtype) (collected : Collected κ)
    (descriptor : ExternalTensorDescriptor κ) : Except RerankError (Collected κ) := do
  validateExternalForRequest descriptor dimension dtype 4096 512
  let nextTokens ← addOr collected.totalTokens descriptor.rows
  let bytes ← tensorBytes descriptor.rows dimension dtype
  let nextDeclaredBytes ← addOr collected.declaredTensorBytes bytes
  let referenceBytes ← addOr 16 (utf8 descriptor.tensorRef).length
  let descriptorFrameBytes ← addOr referenceBytes (utf8 descriptor.checksum).length
  let nextFrameBytes ← addOr collected.frameBytes descriptorFrameBytes
  pure ⟨collected.batch ++ [descriptor], nextTokens, nextDeclaredBytes, nextFrameBytes⟩

/-- The request would be larger than the limits. -/
def Collected.exceeds (backend : GpuExternalTileMaxsimBackend) (collected : Collected κ) : Prop :=
  backend.maxBatchTokens < collected.totalTokens ∨
    backend.maxBatchBytes < collected.declaredTensorBytes ∨
    backend.maxBatchBytes < collected.frameBytes

instance (backend : GpuExternalTileMaxsimBackend) (collected : Collected κ) :
    Decidable (collected.exceeds backend) :=
  inferInstanceAs (Decidable (_ ∨ _ ∨ _))

/-- The loop of `collect_external_batch`, with room for some more descriptors. -/
def collectDescriptors (backend : GpuExternalTileMaxsimBackend) (dimension : Nat)
    (dtype : TensorDtype) (fetch : Fetch ω χ κ) :
    (room : Nat) → Collected κ → Fallible RerankError (Supply ω χ κ) (Collected κ)
  | 0, collected => pure collected
  | room + 1, collected => do
    match ← nextDescriptor fetch with
    | none => pure collected
    | some descriptor => do
      let next ← Fallible.lift (collected.push dimension dtype descriptor)
      if next.exceeds backend then
        if collected.batch.isEmpty then throw .requestTooLarge
        else do
          modify fun supply => { supply with pending := some descriptor }
          pure collected
      else collectDescriptors backend dimension dtype fetch room next

/-- The request before any descriptor. -/
def Collected.base (backend : GpuExternalTileMaxsimBackend) (query : List OwnedVector) :
    Except RerankError (TensorDtype × Nat × Collected κ) := do
  validateIdentity backend.modelContractId backend.scheduling
  let (dtype, dimension) ← tensorMetadata query
  let queryRows ← tryU32 query.length
  let queryBytes ← tensorBytes queryRows dimension dtype
  let frameBytes ← externalRequestBaseBytes backend.modelContractId backend.scheduling queryBytes
  pure (dtype, dimension, ⟨[], query.length, queryBytes, frameBytes⟩)

/-- `collect_external_batch`, with what it has kept track of; a batch has at most
`MAX_EXTERNAL_CANDIDATES_PER_BATCH` descriptors. -/
def collectExternalBatch (backend : GpuExternalTileMaxsimBackend) (query : List OwnedVector)
    (fetch : Fetch ω χ κ) : Fallible RerankError (Supply ω χ κ) (Collected κ) := do
  let (dtype, dimension, base) ← Fallible.lift (Collected.base backend query)
  Fallible.require (¬ base.exceeds backend) .requestTooLarge
  collectDescriptors backend dimension dtype fetch 65536 base

/-! ## Requests -/

/-- The outside of a rerank: the clock, in nanoseconds, and `TileMaxsimTransport`. -/
structure Transport (τ : Type) where
  now : τ → Nat × τ
  roundTrip : (request : List UInt8) → (timeout : Nat) → (maxResponseBytes : Nat) →
    Fallible RerankError τ (List UInt8)

/-- The state of a rerank: the supply of descriptors, the transport, `NEXT_REQUEST_ID`, and what
the callback has consumed. -/
structure Rerank (ω τ γ χ κ : Type) where
  supply : Supply ω χ κ
  transport : τ
  nextRequestId : UInt64
  consumed : γ

/-- `Instant::now`. -/
def now (transport : Transport τ) : Fallible RerankError (Rerank ω τ γ χ κ) Nat :=
  Fallible.act fun state =>
    ((transport.now state.transport).1,
      { state with transport := (transport.now state.transport).2 })

/-- `remaining_logical_timeout`. -/
def remainingLogicalTimeout (transport : Transport τ) (deadline : Nat) :
    Fallible RerankError (Rerank ω τ γ χ κ) Nat := do
  let time ← now transport
  Fallible.require (time < deadline) (.transport "logical request timed out")
  pure (deadline - time)

/-- `NEXT_REQUEST_ID.fetch_add(1)`. -/
def freshRequestId : Fallible RerankError (Rerank ω τ γ χ κ) UInt64 :=
  Fallible.act fun state =>
    (state.nextRequestId, { state with nextRequestId := state.nextRequestId + 1 })

/-- The longest response to a request. -/
def maxResponseBytes (count : Nat) : Except RerankError Nat :=
  match (checkedMul count 8).bind fun size => checkedAdd 32 size with
  | none => throw .requestTooLarge
  | some size => pure (max size (32 + 64 * 1024))

/-- One request of `rerank_batches`, and what the callback does with the response. -/
def rerankBatch (backend : GpuExternalTileMaxsimBackend) (query : List OwnedVector)
    (transport : Transport τ) (consume : RerankResults κ → Fallible RerankError γ Unit)
    (deadline : Nat) (descriptors : List (ExternalTensorDescriptor κ)) :
    Fallible RerankError (Rerank ω τ γ χ κ) Unit := do
  let remaining ← remainingLogicalTimeout transport deadline
  let requestId ← freshRequestId
  let encoded ← Fallible.lift (encodeExternalDescriptors requestId backend.modelContractId query
    descriptors backend.maxBatchTokens backend.maxBatchBytes backend.scheduling
    (remaining / 1000000))
  let maxResponseBytes ← Fallible.lift (maxResponseBytes encoded.heapKeys.length)
  let remaining ← remainingLogicalTimeout transport deadline
  let response ← Fallible.focus Rerank.transport
    (fun state transport => { state with transport := transport })
    (transport.roundTrip encoded.frame remaining maxResponseBytes)
  let results ← Fallible.lift (decodeResponseForVersion response (UInt16.ofNat encoded.version)
    requestId encoded.heapKeys)
  Fallible.focus Rerank.consumed (fun state consumed => { state with consumed := consumed })
    (consume results)

/-- The loop of `rerank_batches`; `none` if the fuel has run out. -/
def rerankLoop (backend : GpuExternalTileMaxsimBackend) (query : List OwnedVector)
    (fetch : Fetch ω χ κ) (transport : Transport τ)
    (consume : RerankResults κ → Fallible RerankError γ Unit) (deadline : Nat) :
    (fuel : Nat) → Fallible RerankError (Rerank ω τ γ χ κ) (Option Unit)
  | 0 => pure none
  | fuel + 1 => do
    let collected ← Fallible.focus Rerank.supply
      (fun state supply => { state with supply := supply })
      (collectExternalBatch backend query fetch)
    if collected.batch.isEmpty then pure (some ())
    else do
      rerankBatch backend query transport consume deadline collected.batch
      rerankLoop backend query fetch transport consume deadline fuel

/-- The range of `Instant`, in nanoseconds. -/
def instantMax : Nat := 2 ^ 63 * 10 ^ 9

/-- `rerank_batches`. -/
def rerankBatches (backend : GpuExternalTileMaxsimBackend) (query : List OwnedVector)
    (fetch : Fetch ω χ κ) (transport : Transport τ)
    (consume : RerankResults κ → Fallible RerankError γ Unit) (fuel : Nat) :
    Fallible RerankError (Rerank ω τ γ χ κ) (Option Unit) := do
  let time ← now transport
  Fallible.require (time + backend.timeout < instantMax)
    (.transport "logical request deadline overflow")
  modify fun state => { state with supply := { state.supply with pending := none } }
  rerankLoop backend query fetch transport consume (time + backend.timeout) fuel

end

end VectorChord.Maxsim
