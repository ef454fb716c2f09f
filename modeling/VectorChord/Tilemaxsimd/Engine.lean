import VectorChord.Collections.Memory
import VectorChord.Tilemaxsimd.Cache
import VectorChord.Tilemaxsimd.Shard

/-!
# The engine

`Engine::score` takes the tensors of a request from the caches of its devices.  Those that
are missing are read, admitted and uploaded in chunks, as many at a time as the caches
have room for.  Reads, uploads and kernels may fail at any time; a failed upload leaves
anything in the ranges it was to fill.
-/

namespace VectorChord.Tilemaxsimd

open Collections Transition

/-! ## State -/

/-- `DeviceState`, with the memory of its GPU. -/
structure Device (ρ : Type) where
  arena : Nat → UInt8
  cache : GpuCache ρ
  h2dBatches : Nat
  h2dBytes : Nat

/-- `Engine` with `n` devices. -/
structure Engine (n : Nat) (ρ : Type) where
  devices : Fin n → Device ρ
  nextDevice : Fin n

/-- What goes wrong while a request is scored.  Round 0 scores what is cached, and each
chunk is a round of its own. -/
structure Environment (n : Nat) where
  read : Option String
  /-- The error of an upload and the bytes it leaves. -/
  upload : (round : Nat) → Fin n → Option (String × (Nat → UInt8))
  kernel : (round : Nat) → Fin n → Option String

/-- The score that a device computes from the bytes of a query and a document. -/
abbrev Kernel (σ : Type) :=
  (query : List UInt8) → (queryRows dimension dtype rows : Nat) → (document : List UInt8) → σ

/-- `MissingTensor`. -/
structure MissingTensor where
  candidateIndex : Nat
  descriptor : Descriptor
  key : String
  payload : List UInt8

/-- `ResidentTensor`. -/
structure ResidentTensor (n : Nat) where
  candidateIndex : Nat
  device : Fin n
  key : String
  offset : Nat
  rows : Nat
  transient : Bool
  newlyAdmitted : Bool
  deriving DecidableEq, Repr

variable {n : Nat} {ρ σ α : Type}

/-- Push an item to the list of a device. -/
def push (lists : Fin n → List α) (device : Fin n) (item : α) : Fin n → List α :=
  Function.update lists device (lists device ++ [item])

/-- The lists of all devices. -/
def flat (lists : Fin n → List α) : List α := (List.finRange n).flatMap lists

/-- `validate_entry`.  The product is that of release builds, which wraps. -/
def validateEntry (descriptor : Descriptor) (entry : CacheEntry ρ) : Except String Unit :=
  let expectedBytes :=
    descriptor.rows * descriptor.dimension * scalarBytes descriptor.dtype % 2 ^ 64
  if entry.rows ≠ descriptor.rows ∨ entry.dimension ≠ descriptor.dimension ∨
      entry.dtype ≠ descriptor.dtype ∨ entry.payloadBytes ≠ expectedBytes ∨
      entry.allocatedBytes < expectedBytes then
    throw "GPU cache metadata disagrees with the tensor descriptor"
  else pure ()

namespace Engine

/-- The engine with another cache on a device. -/
def setCache (self : Engine n ρ) (device : Fin n) (cache : GpuCache ρ) : Engine n ρ :=
  { self with
    devices := Function.update self.devices device { self.devices device with cache := cache } }

/-- Use the cache of a device. -/
def onCache (device : Fin n) (operation : Fallible String (GpuCache ρ) α) :
    Fallible String (Engine n ρ) α :=
  .focus (fun self => (self.devices device).cache) (fun self cache => self.setCache device cache)
    operation

/-- The devices from the next one on. -/
def rotation (self : Engine n ρ) : List (Fin n) :=
  (List.range n).map fun step =>
    ⟨(self.nextDevice.1 + step) % n, Nat.mod_lt _ self.nextDevice.pos⟩

/-- The device after one that was used is the next one. -/
def advance (device : Fin n) (self : Engine n ρ) : Engine n ρ :=
  { self with nextDevice := ⟨(device.1 + 1) % n, Nat.mod_lt _ device.pos⟩ }

/-! ## Candidates -/

/-- What the first loop of `score` collects. -/
structure Classified (n : Nat) where
  hitChunks : Fin n → List (ResidentTensor n)
  missing : List (Nat × Descriptor)
  firstCandidateByKey : Table String Nat
  duplicateCandidates : List (Nat × Nat)

def Classified.empty : Classified n := ⟨fun _ => [], [], ∅, []⟩

section
variable [Priority ρ] [KeyHash]

/-- A candidate that is not a duplicate. -/
def classifyFirst (index : Nat) (descriptor : Descriptor) (classified : Classified n) :
    Fallible String (Engine n ρ) (Classified n) := do
  let self ← MonadState.get
  match (List.finRange n).find? fun device =>
      (self.devices device).cache.contains (cacheKey descriptor) with
  | some device => do
    match ← onCache device (.act fun cache => cache.get (cacheKey descriptor)) with
    | none => throw "cache hit disappeared"
    | some entry => do
      Fallible.lift (validateEntry descriptor entry)
      pure { classified with
        hitChunks := push classified.hitChunks device
          ⟨index, device, cacheKey descriptor, entry.offset, entry.rows, false, false⟩ }
  | none => do
    onCache self.nextDevice (modify fun cache => cache.recordAccessMiss (cacheKey descriptor))
    pure { classified with missing := classified.missing ++ [(index, descriptor)] }

/-- One iteration of the first loop of `score`. -/
def classifyOne (index : Nat) (descriptor : Descriptor) (classified : Classified n) :
    Fallible String (Engine n ρ) (Classified n) :=
  match classified.firstCandidateByKey.lookup (cacheKey descriptor) with
  | some first => pure { classified with
      duplicateCandidates := classified.duplicateCandidates ++ [(index, first)] }
  | none => classifyFirst index descriptor { classified with
      firstCandidateByKey := classified.firstCandidateByKey.insert (cacheKey descriptor) index }

/-- The first loop of `score`. -/
def classify : (index : Nat) → List Descriptor → Classified n →
    Fallible String (Engine n ρ) (Classified n)
  | _, [], classified => pure classified
  | index, descriptor :: rest, classified => do
    let classified ← classifyOne index descriptor classified
    classify (index + 1) rest classified

end

/-! ## Chunks -/

/-- The bytes of a tensor, as a kernel reads them. -/
def document (self : Engine n ρ) (request : Request) (device : Fin n)
    (tensor : ResidentTensor n) : List UInt8 :=
  slice (self.devices device).arena tensor.offset
    (tensor.rows * request.dimension * scalarBytes request.dtype)

/-- The worker of a device in `score_devices`. -/
def scoreDevice (self : Engine n ρ) (kernel : Kernel σ) (failures : Fin n → Option String)
    (request : Request) (chunks : Fin n → List (ResidentTensor n)) (device : Fin n) :
    Except String (List (Nat × σ)) :=
  if (chunks device).isEmpty then pure []
  else
    match failures device with
    | some error => throw error
    | none => pure ((chunks device).map fun tensor =>
      (tensor.candidateIndex,
        kernel request.query request.queryRows request.dimension request.dtype tensor.rows
          (self.document request device tensor)))

/-- `score_devices`: nothing is scored if one of the devices fails. -/
def scoreDevices (self : Engine n ρ) (kernel : Kernel σ) (failures : Fin n → Option String)
    (request : Request) (chunks : Fin n → List (ResidentTensor n)) (scores : List (Option σ)) :
    Except String (List (Option σ)) := do
  let completed ← (List.finRange n).mapM (self.scoreDevice kernel failures request chunks)
  pure (completed.flatten.foldl (fun scores scored => scores.set scored.1 (some scored.2)) scores)

/-- Give up the tensors of a chunk: those that a test accepts leave their cache and the
others are released. -/
def settle [Priority ρ] (removes : ResidentTensor n → Bool) :
    List (ResidentTensor n) → Fallible String (Engine n ρ) Unit
  | [] => pure ()
  | tensor :: rest => do
    onCache tensor.device
      (if removes tensor then GpuCache.remove tensor.key else GpuCache.release tensor.key)
    settle removes rest

/-- `release_chunks`. -/
def releaseChunks [Priority ρ] (chunks : Fin n → List (ResidentTensor n)) :
    Fallible String (Engine n ρ) Unit :=
  settle (fun tensor => tensor.transient) (flat chunks)

/-- `cleanup_after_upload_failure`. -/
def cleanupAfterUploadFailure [Priority ρ] (chunks : Fin n → List (ResidentTensor n))
    (uploadSucceeded : Fin n → Bool) : Fallible String (Engine n ρ) Unit :=
  settle (fun tensor =>
    tensor.newlyAdmitted && (!uploadSucceeded tensor.device || tensor.transient)) (flat chunks)

/-- The tensors that one round has found room for. -/
structure Filling (n : Nat) where
  chunks : Fin n → List (ResidentTensor n)
  uploads : Fin n → List (Nat × List UInt8)
  consumed : Nat

namespace Filling

def empty : Filling n := ⟨fun _ => [], fun _ => [], 0⟩

/-- No chunk has a tensor. -/
def isEmpty (self : Filling n) : Bool :=
  (List.finRange n).all fun device =>
  (self.chunks device).isEmpty

/-- Add a tensor that has been uploaded before. -/
def reuse (self : Filling n) (tensor : MissingTensor) (device : Fin n) (entry : CacheEntry ρ) :
    Filling n :=
  { self with
    chunks := push self.chunks device
      ⟨tensor.candidateIndex, device, tensor.key, entry.offset, entry.rows, false, false⟩
    consumed := self.consumed + 1 }

/-- Add a tensor that was admitted. -/
def take (self : Filling n) (tensor : MissingTensor) (device : Fin n) (offset : Nat)
    (transient : Bool) : Filling n where
  chunks := push self.chunks device
    ⟨tensor.candidateIndex, device, tensor.key, offset, tensor.descriptor.rows, transient, true⟩
  uploads := push self.uploads device (offset, tensor.payload)
  consumed := self.consumed + 1

end Filling

/-- The first device that has a tensor, from which it is taken. -/
def acquireAny (key : String) :
    List (Fin n) → Fallible String (Engine n ρ) (Option (Fin n × CacheEntry ρ))
  | [] => pure none
  | device :: rest => do
    match ← onCache device (.act fun cache => cache.acquireExisting key) with
    | some entry => pure (some (device, entry))
    | none => acquireAny key rest

/-- How a tensor is admitted. -/
def admission (tenant : String) (force : Bool) (tensor : MissingTensor) : Tensor where
  tenant := tenant
  key := tensor.key
  payloadBytes := tensor.payload.length
  rows := tensor.descriptor.rows
  dimension := tensor.descriptor.dimension
  dtype := tensor.descriptor.dtype
  pinned := false
  force := force

section
variable [Priority ρ] [KeyHash] [IterationOrder]

/-- Admit a tensor to the first device that has room. -/
def admitAny (tensor : Tensor) : List (Fin n) → Fallible String (Engine n ρ) (Option (Fin n × Nat))
  | [] => pure none
  | device :: rest => do
    match ← onCache device (GpuCache.admitForTenant tensor) with
    | .admitted offset _ => do
      modify (advance device)
      pure (some (device, offset))
    | .rejected | .deferred => admitAny tensor rest

/-- Admit a tensor, or else force its admission if it is the first of its round. -/
def admitMissing (tenant : String) (tensor : MissingTensor) (filling : Filling n) :
    Fallible String (Engine n ρ) (Option (Fin n × Nat × Bool)) := do
  let self ← MonadState.get
  match ← admitAny (admission tenant false tensor) self.rotation with
  | some (device, offset) => pure (some (device, offset, false))
  | none =>
    if filling.isEmpty then do
      match ← admitAny (admission tenant true tensor) self.rotation with
      | some (device, offset) => pure (some (device, offset, true))
      | none => pure none
    else pure none

/-- One iteration of the loop that fills chunks.  `none` means that the loop has ended. -/
def fillNext (tenant : String) (tensor : MissingTensor) (filling : Filling n) :
    Fallible String (Engine n ρ) (Option (Filling n)) := do
  match ← acquireAny tensor.key (List.finRange n) with
  | some (device, entry) => pure (some (filling.reuse tensor device entry))
  | none => do
    match ← admitMissing tenant tensor filling with
    | some (device, offset, transient) =>
      pure (some (filling.take tensor device offset transient))
    | none =>
      if filling.isEmpty then
        throw "one tensor cannot be scheduled in any configured Rust GPU block cache"
      else pure none

/-- The loop that fills chunks. -/
def fill (tenant : String) : List MissingTensor → Filling n →
    Fallible String (Engine n ρ) (Filling n)
  | [], filling => pure filling
  | tensor :: rest, filling => do
    match ← fillNext tenant tensor filling with
    | none => pure filling
    | some filling => fill tenant rest filling

end

/-! ## Uploads -/

/-- The worker of a device in `upload_devices`. -/
def uploadBatch (device : Device ρ) (outcome : Option (String × (Nat → UInt8)))
    (items : List (Nat × List UInt8)) : Device ρ :=
  match outcome with
  | some (_, garbage) => { device with arena := scramble device.arena garbage items }
  | none => { device with
      arena := writeAll device.arena items
      h2dBatches := (device.h2dBatches + 1) % 2 ^ 64
      h2dBytes := (device.h2dBytes + (items.map fun item => item.2.length).sum) % 2 ^ 64 }

/-- The workers of all devices that have something to upload. -/
def uploadBatches (outcomes : Fin n → Option (String × (Nat → UInt8)))
    (uploads : Fin n → List (Nat × List UInt8)) (self : Engine n ρ) : Engine n ρ :=
  { self with
    devices := fun device =>
      if (uploads device).isEmpty then self.devices device
      else uploadBatch (self.devices device) (outcomes device) (uploads device) }

/-- The errors of the workers. -/
def uploadErrors (outcomes : Fin n → Option (String × (Nat → UInt8)))
    (uploads : Fin n → List (Nat × List UInt8)) (device : Fin n) : Option String :=
  if (uploads device).isEmpty then none else (outcomes device).map Prod.fst

/-- Mark the new tensors of a device as ready, up to the first error. -/
def markChunk (device : Fin n) :
    List (ResidentTensor n) → Fallible String (Engine n ρ) (Option String)
  | [] => pure none
  | tensor :: rest =>
    if tensor.newlyAdmitted then do
      match ← Fallible.attempt (onCache device (GpuCache.markReady tensor.key)) with
      | .error message => pure (some message)
      | .ok _ => markChunk device rest
    else markChunk device rest

/-- The last loop of `upload_devices`, over the first error and the devices that have
succeeded. -/
def markChunks (chunks : Fin n → List (ResidentTensor n)) : List (Fin n) → Option String →
    (Fin n → Bool) → Fallible String (Engine n ρ) (Option String × (Fin n → Bool))
  | [], firstError, succeeded => pure (firstError, succeeded)
  | device :: rest, firstError, succeeded =>
    if succeeded device then do
      match ← markChunk device (chunks device) with
      | none => markChunks chunks rest firstError succeeded
      | some message =>
        markChunks chunks rest (firstError.or (some message))
          (Function.update succeeded device false)
    else markChunks chunks rest firstError succeeded

/-- `upload_devices`. -/
def uploadDevices (outcomes : Fin n → Option (String × (Nat → UInt8)))
    (chunks : Fin n → List (ResidentTensor n)) (uploads : Fin n → List (Nat × List UInt8)) :
    Fallible String (Engine n ρ) (Option String × (Fin n → Bool)) := do
  modify (uploadBatches outcomes uploads)
  markChunks chunks (List.finRange n) ((List.finRange n).findSome? (uploadErrors outcomes uploads))
    fun device => (uploadErrors outcomes uploads device).isNone

/-! ## Scores -/

section
variable [Priority ρ] [KeyHash] [IterationOrder]

/-- Score a chunk and give up its tensors. -/
def scoreChunks (kernel : Kernel σ) (failures : Fin n → Option String) (request : Request)
    (chunks : Fin n → List (ResidentTensor n)) (scores : List (Option σ)) :
    Fallible String (Engine n ρ) (List (Option σ)) := do
  let self ← MonadState.get
  let result := self.scoreDevices kernel failures request chunks scores
  let cleanup ← Fallible.attempt (releaseChunks chunks)
  let scores ← Fallible.lift result
  Fallible.lift cleanup
  pure scores

/-- The loop over chunks. -/
def scorePending (kernel : Kernel σ) (environment : Environment n) (request : Request)
    (round : Nat) (pending : List MissingTensor) (scores : List (Option σ)) :
    Fallible String (Engine n ρ) (List (Option σ)) :=
  if pending.isEmpty then pure scores
  else do
    let filling ← fill request.tenant pending .empty
    if filling.consumed = 0 then throw "Rust multi-GPU scheduler made no progress"
    else do
      match ← uploadDevices (environment.upload round) filling.chunks filling.uploads with
      | (some error, uploadSucceeded) => do
        cleanupAfterUploadFailure filling.chunks uploadSucceeded
        throw error
      | (none, _) => do
        let scores ←
          scoreChunks kernel (environment.kernel round) request filling.chunks scores
        scorePending kernel environment request (round + 1) (pending.drop filling.consumed) scores
termination_by pending.length
decreasing_by
  simp only [List.isEmpty_iff] at *
  have := List.length_pos_iff.mpr ‹pending ≠ []›
  simp only [List.length_drop]
  omega

/-- The tensors that were read. -/
def missingTensors (missing : List (Nat × Descriptor)) (payloads : List (List UInt8)) :
    List MissingTensor :=
  (missing.zip payloads).map fun item => ⟨item.1.1, item.1.2, cacheKey item.1.2, item.2⟩

/-- Copy the scores of duplicates. -/
def copyDuplicates (duplicates : List (Nat × Nat)) (scores : List (Option σ)) : List (Option σ) :=
  duplicates.foldl (fun scores duplicate =>
    scores.set duplicate.1 (scores.getD duplicate.2 none)) scores

/-- The result of `score`. -/
def collect (scores : List (Option σ)) :
    (index : Nat) → List Descriptor → Except String (List (Nat × σ))
  | _, [] => pure []
  | index, descriptor :: rest => do
    match scores.getD index none with
    | none => throw "missing native TileMaxSim result"
    | some score => do
      let others ← collect scores (index + 1) rest
      pure ((descriptor.candidateId, score) :: others)

/-- `Engine::score`. -/
def score (kernel : Kernel σ) (store : ShardStore) (environment : Environment n)
    (request : Request) : Fallible String (Engine n ρ) (List (Nat × σ)) :=
  if request.candidates.isEmpty then pure []
  else do
    let classified ← classify 0 request.candidates .empty
    let scores ← scoreChunks kernel (environment.kernel 0) request classified.hitChunks
      (List.replicate request.candidates.length none)
    let payloads ← Fallible.lift
      (store.resolveMany environment.read (classified.missing.map Prod.snd))
    let scores ← scorePending kernel environment request 1
      (missingTensors classified.missing payloads) scores
    Fallible.lift (collect (copyDuplicates classified.duplicateCandidates scores) 0
      request.candidates)

end

end Engine

end VectorChord.Tilemaxsimd
