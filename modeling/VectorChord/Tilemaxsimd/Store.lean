import VectorChord.Tilemaxsimd.Cache
import VectorChord.Tilemaxsimd.Shard

/-!
# The store of immutable tensors

`ShardStore` finds tensors by contract and digest.  The index of a contract says which
range of which shard has a tensor; a tensor that is not in the index is a file of its own.
`resolve_many` asks a cache in host memory first, then reads the rest shard by shard:
ranges that are close together are read at once and cut apart again.  Sums and differences
of offsets are those of release builds, which wrap.
-/

namespace VectorChord.Tilemaxsimd.Shards

open Codec Collections Transition

/-- `hex::encode` of `Sha256::digest`: 32 bytes, each as two digits. -/
class Sha256 where
  hex : List UInt8 → String
  isDigest_hex : ∀ bytes, isDigest (hex bytes) = true

/-- `{:?}` of a string. -/
class DebugText where
  quote : String → String

/-- `Descriptor`, with what the store reads of it.  Frames only have proper digests, but those
of resident manifests are any texts. -/
structure Descriptor where
  contract : String
  digest : String
  rows : Nat
  dimension : Nat
  dtype : Nat

/-- `cache_key`. -/
def cacheKey (descriptor : Descriptor) : String :=
  keyOf descriptor.contract descriptor.digest descriptor.rows descriptor.dimension
    descriptor.dtype

/-- A descriptor of a frame. -/
def ofFrame (descriptor : Tilemaxsimd.Descriptor) : Descriptor where
  contract := descriptor.contract
  digest := descriptor.digest.1
  rows := descriptor.rows
  dimension := descriptor.dimension
  dtype := descriptor.dtype

/-- The comparison `<` of `f64`, which is not the negation of `>=`. -/
class HostPriority (ρ : Type) extends Priority ρ where
  lt : ρ → ρ → Bool

/-! ## Host cache -/

/-- `HostEntry`. -/
structure HostEntry (ρ : Type) where
  payload : List UInt8
  priority : ρ
  ownerTenant : String

/-- `HostCache`. -/
structure HostCache (ρ : Type) where
  maximumBytes : Nat
  currentBytes : Nat
  entries : Table String (HostEntry ρ)
  sketch : TinyLfu
  inflation : ρ
  tenantBytes : Table String Nat
  defaultTenantMaxBytes : Nat
  hits : Nat
  misses : Nat
  evictions : Nat
  admissionRejections : Nat

namespace HostCache

variable {ρ : Type}

/-- `new`. -/
def new [Priority ρ] (maximumBytes tenantMaxPercent : Nat) : HostCache ρ where
  maximumBytes := maximumBytes
  currentBytes := 0
  entries := ∅
  sketch := .new 4096
  inflation := Priority.zero
  tenantBytes := ∅
  defaultTenantMaxBytes := maximumBytes * tenantMaxPercent % 2 ^ 64 / 100
  hits := 0
  misses := 0
  evictions := 0
  admissionRejections := 0

/-- `get`. -/
def get [Priority ρ] [KeyHash] (self : HostCache ρ) (key : String) :
    Option (List UInt8) × HostCache ρ :=
  let (frequency, sketch) := self.sketch.increment key
  let self := { self with sketch := sketch }
  match self.entries.lookup key with
  | none => (none, { self with misses := self.misses + 1 })
  | some entry =>
    let priority := Priority.rate self.inflation frequency entry.payload.length
    (some entry.payload, { self with
      entries := self.entries.insert key { entry with priority := priority }
      hits := self.hits + 1 })

/-- Bytes of a tenant. -/
def usage (self : HostCache ρ) (tenant : String) : Nat := (self.tenantBytes.lookup tenant).getD 0

/-- `remove`. -/
def remove (self : HostCache ρ) (key : String) : HostCache ρ :=
  match self.entries.lookup key with
  | none => self
  | some entry =>
    let left := self.usage entry.ownerTenant - entry.payload.length
    { self with
      entries := self.entries.erase key
      currentBytes := self.currentBytes - entry.payload.length
      tenantBytes :=
        if left = 0 then self.tenantBytes.erase entry.ownerTenant
        else self.tenantBytes.insert entry.ownerTenant left }

/-- The entry with the least priority among those that a test accepts. -/
def least [Priority ρ] [IterationOrder] (self : HostCache ρ) (test : HostEntry ρ → Bool) :
    Option (String × HostEntry ρ) :=
  (minBy (fun left right => Priority.totalCmp left.2.priority right.2.priority)
    ((IterationOrder.arrange self.entries.entries).filter fun entry => test entry.2)).map
      fun entry => (entry.1, entry.2)

/-- Remove a victim and count the eviction. -/
def evict [Priority ρ] (self : HostCache ρ) (key : String) (victim : HostEntry ρ) : HostCache ρ :=
  let self := self.remove key
  { self with
    inflation := Priority.max self.inflation victim.priority
    evictions := self.evictions + 1 }

/-- Count a payload that was not stored. -/
def reject (self : HostCache ρ) : HostCache ρ :=
  { self with admissionRejections := self.admissionRejections + 1 }

/-- The first loop of `put`: evict entries of the tenant until there is room within its
limit.  `false` if the payload is not to be stored. -/
def makeTenantRoom [Priority ρ] [IterationOrder] (tenant : String) (frequency bytes : Nat) :
    (fuel : Nat) → HostCache ρ → Bool × HostCache ρ
  | 0, self => (false, self)
  | fuel + 1, self =>
    if saturatingAdd (self.usage tenant) bytes ≤ self.defaultTenantMaxBytes then (true, self)
    else
      match self.least fun entry => entry.ownerTenant == tenant with
      | none => (false, self)
      | some (key, victim) =>
        if Priority.le (Priority.rate self.inflation frequency bytes) victim.priority then
          (false, self.reject)
        else makeTenantRoom tenant frequency bytes fuel (self.evict key victim)

/-- The second loop of `put`: evict entries until there is room. -/
def makeRoom [HostPriority ρ] [IterationOrder] (frequency bytes : Nat) :
    (fuel : Nat) → HostCache ρ → Bool × HostCache ρ
  | 0, self => (false, self)
  | fuel + 1, self =>
    if self.currentBytes + bytes ≤ self.maximumBytes then (true, self)
    else
      match self.least fun _ => true with
      | none => (false, self)
      | some (key, victim) =>
        if HostPriority.lt (Priority.rate self.inflation frequency bytes) victim.priority then
          (false, self.reject)
        else makeRoom frequency bytes fuel (self.evict key victim)

/-- The end of `put`. -/
def store [Priority ρ] (self : HostCache ρ) (tenant key : String) (frequency : Nat)
    (payload : List UInt8) : HostCache ρ :=
  { self with
    currentBytes := self.currentBytes + payload.length
    tenantBytes := self.tenantBytes.insert tenant (self.usage tenant + payload.length)
    entries := self.entries.insert key
      ⟨payload, Priority.rate self.inflation frequency payload.length, tenant⟩ }

/-- `put`.  Each iteration of its loops but the last removes an entry. -/
def put [HostPriority ρ] [KeyHash] [IterationOrder] (self : HostCache ρ) (tenant key : String)
    (payload : List UInt8) : HostCache ρ :=
  if self.maximumBytes = 0 ∨ self.maximumBytes < payload.length then self
  else
    let self := self.remove key
    let frequency := max (self.sketch.estimate key) 1
    match self.makeTenantRoom tenant frequency payload.length (self.entries.keys.length + 1) with
    | (false, self) => self
    | (true, self) =>
      match self.makeRoom frequency payload.length (self.entries.keys.length + 1) with
      | (false, self) => self
      | (true, self) => self.store tenant key frequency payload

end HostCache

/-! ## Contracts -/

/-- `RawShard`. -/
structure RawShard where
  name : String
  size : UInt64
  checksum : String

/-- `RawEntry`. -/
structure RawEntry where
  digest : String
  shard : String
  offset : UInt64
  length : UInt64
  rows : Nat
  dimension : Nat
  dtype : String

/-- `RawIndex`. -/
structure RawIndex where
  format : String
  version : Nat
  alignment : UInt64
  shards : List RawShard
  entries : List RawEntry

/-- `serde_json::from_str` of an index. -/
class IndexFormat where
  parse : String → Option RawIndex

/-- A directory of tensors, by paths relative to it.  Each operation can fail with an error. -/
structure Root where
  /-- `symlink_metadata`: the path is a directory and not a link. -/
  isDirectory : String → Except String Bool
  tryExists : String → Except String Bool
  /-- `nofollow`: the contents of a file. -/
  openFile : String → Except String (List UInt8)

/-- `ShardFile`. -/
structure ShardFile where
  file : List UInt8
  size : UInt64
  checksum : String
  verified : Bool

/-- `Entry`. -/
structure Entry where
  shard : String
  offset : UInt64
  length : UInt64
  rows : Nat
  dimension : Nat
  dtype : Nat
  deriving DecidableEq

/-- `ContractStore`. -/
structure ContractStore where
  root : Root
  shards : Table String ShardFile
  entries : Table String Entry

def indexName : String := "tilemaxsim-shards-v1.json"

/-- The index of a directory, if it has one. -/
def readIndex [IndexFormat] (root : Root) : Except String (Option RawIndex) := do
  if !(← root.isDirectory "") then throw "immutable tensor root must be a real directory"
  else if !(← root.tryExists indexName) then pure none
  else
    let bytes ← root.openFile indexName
    match fromUtf8 bytes with
    | none => throw "stream did not contain valid UTF-8"
    | some document =>
      match IndexFormat.parse document with
      | none => throw "invalid immutable shard index"
      | some raw => pure (some raw)

/-- `usize::is_power_of_two`. -/
def isPowerOfTwo (value : Nat) : Bool := value == 2 ^ Nat.log2 value

/-- The checks of the head of an index. -/
def checkIndex (raw : RawIndex) : Except String Unit :=
  if raw.format ≠ "vectorchord.tilemaxsim.shards" ∨ raw.version ≠ 1 then
    throw "unsupported immutable shard index"
  else if raw.alignment = 0 ∨ isPowerOfTwo raw.alignment.toNat = false then
    throw "invalid immutable shard alignment"
  else pure ()

/-- One iteration of the loop over shards. -/
def openShard (root : Root) (shards : Table String ShardFile) (shard : RawShard) :
    Except String (Table String ShardFile) :=
  match stripPrefix "sha256:" shard.checksum with
  | none => throw "invalid immutable shard checksum"
  | some digest =>
    if shard.name ≠ "shards/sha256-" ++ digest ++ ".vts" ∨
        (utf8 digest).all isLowerHexdigit = false then
      throw "invalid immutable shard name"
    else do
      let file ← root.openFile shard.name
      if file.length ≠ shard.size.toNat then throw "immutable shard size mismatch"
      else if shard.name ∈ shards then throw "duplicate immutable shard"
      else pure (shards.insert shard.name ⟨file, shard.size, digest, false⟩)

/-- The type of a tensor in an index. -/
def indexDtype (dtype : String) : Except String Nat :=
  if dtype = "float32" then pure 1
  else if dtype = "float16" then pure 2
  else throw "invalid shard tensor dtype"

/-- One iteration of the loop over entries. -/
def openEntry (alignment : UInt64) (shards : Table String ShardFile)
    (entries : Table String Entry) (entry : RawEntry) : Except String (Table String Entry) := do
  let dtype ← indexDtype entry.dtype
  match shards.lookup entry.shard with
  | none => throw "shard tensor references an unknown file"
  | some shard =>
    if entry.offset.toNat % alignment.toNat ≠ 0 then throw "invalid shard tensor range"
    else do
      let bytes ← shardTensorBytes entry.rows entry.dimension dtype
      if entry.length.toNat ≠ bytes ∨ shard.size < entry.offset + entry.length then
        throw "invalid shard tensor range"
      else if entry.digest ∈ entries then throw "duplicate tensor digest in shard index"
      else pure (entries.insert entry.digest
        ⟨entry.shard, entry.offset, entry.length, entry.rows, entry.dimension, dtype⟩)

/-- `open_contract`. -/
def openContract [IndexFormat] (root : Root) : Except String ContractStore := do
  match ← readIndex root with
  | none => pure ⟨root, ∅, ∅⟩
  | some raw => do
    checkIndex raw
    let shards ← raw.shards.foldlM (openShard root) ∅
    let entries ← raw.entries.foldlM (openEntry raw.alignment shards) ∅
    pure ⟨root, shards, entries⟩

/-- `object_path`. -/
def objectPath (digest : String) : Except String String :=
  if isDigest digest = false then throw "invalid tensor object digest"
  else pure ("objects/" ++ String.ofList (digest.toList.take 2) ++ "/" ++ digest ++ ".tensor")

/-- `open_object`. -/
def openObject (root : Root) (digest : String) : Except String (List UInt8) := do
  let path ← objectPath digest
  if !(← root.isDirectory "objects") then
    throw "immutable tensor object path contains a non-directory component"
  else if !(← root.isDirectory ("objects/" ++ String.ofList (digest.toList.take 2))) then
    throw "immutable tensor object path contains a non-directory component"
  else root.openFile path

/-! ## Ranges -/

/-- `u64::saturating_sub`. -/
def saturatingSub (left right : UInt64) : UInt64 := if right ≤ left then left - right else 0

/-- A tensor to be read: its place in the output and its entry. -/
abbrev Item := Nat × Entry

/-- A range that is read at once, and the tensors in it. -/
structure Range where
  start : UInt64
  stop : UInt64
  items : List Item

/-- The inner loop: the end of a range, its items and the items behind it. -/
def extendRange (start : UInt64) : UInt64 → List Item → UInt64 × List Item × List Item
  | stop, [] => (stop, [], [])
  | stop, item :: items =>
    let candidateEnd := item.2.offset + item.2.length
    if 64 * 1024 < saturatingSub item.2.offset stop ∨
        8 * 1024 * 1024 < saturatingSub candidateEnd start then (stop, [], item :: items)
    else
      let (stop, inside, behind) := extendRange start (max stop candidateEnd) items
      (stop, item :: inside, behind)

theorem length_extendRange (start stop : UInt64) (items : List Item) :
    (extendRange start stop items).2.2.length ≤ items.length := by
  induction items generalizing stop with
  | nil => exact le_refl 0
  | cons item items ih =>
    simp only [extendRange]
    split
    · exact le_refl _
    · exact Nat.le_succ_of_le (ih _)

/-- The outer loop: the ranges of items that are sorted by offset. -/
def coalesce : List Item → List Range
  | [] => []
  | item :: items =>
    let extended := extendRange item.2.offset (item.2.offset + item.2.length) items
    ⟨item.2.offset, extended.1, item :: extended.2.1⟩ :: coalesce extended.2.2
  termination_by items => items.length
  decreasing_by exact Nat.lt_succ_of_le (length_extendRange _ _ _)

/-- The ranges of a group, after `sort_by_key`, which is stable. -/
def rangesOf (items : List Item) : List Range :=
  coalesce (items.insertionSort fun left right => left.2.offset ≤ right.2.offset)

/-- `slice::chunks`. -/
def chunks {α : Type} (size : Nat) (items : List α) : List (List α) :=
  (List.range ((items.length + size - 1) / size)).map fun index =>
    (items.drop (index * size)).take size

/-! ## Workers -/

/-- Why a worker has no result. -/
inductive WorkerFailure where
  | failed (message : String)
  | panicked
  deriving DecidableEq

/-- `read_exact_at`. -/
def readExactAt (file : List UInt8) (offset length : Nat) : Except String (List UInt8) :=
  if length = 0 then pure []
  else if offset + length ≤ file.length then pure ((file.drop offset).take length)
  else throw "failed to fill whole buffer"

/-- The bytes from `start` to `stop`, if that is a range of the list. -/
def sliceBetween (bytes : List UInt8) (start stop : Nat) : Option (List UInt8) :=
  if start ≤ stop ∧ stop ≤ bytes.length then some ((bytes.drop start).take (stop - start)) else none

section

variable [Sha256]

/-- Cut one tensor out of a range. -/
def cutItem (descriptors : List Descriptor) (start : UInt64) (bytes : List UInt8) (item : Item) :
    Except WorkerFailure (Nat × List UInt8) :=
  let local' := item.2.offset - start
  match sliceBetween bytes local'.toNat (local' + item.2.length).toNat, descriptors[item.1]? with
  | some payload, some descriptor =>
    if Sha256.hex payload ≠ descriptor.digest then
      throw (.failed "tensor checksum mismatch inside immutable shard")
    else pure (item.1, payload)
  | _, _ => throw .panicked

/-- Read one range.  A buffer is not longer than `isize::MAX`. -/
def readRange (descriptors : List Descriptor) (file : List UInt8) (range : Range) :
    Except WorkerFailure (List (Nat × List UInt8)) :=
  let length := (range.stop - range.start).toNat
  if 2 ^ 63 ≤ length then throw .panicked
  else
    match readExactAt file range.start.toNat length with
    | .error message => throw (.failed message)
    | .ok bytes => range.items.mapM (cutItem descriptors range.start bytes)

/-- The body of a worker. -/
def readRanges (descriptors : List Descriptor) (file : List UInt8) (ranges : List Range) :
    Except WorkerFailure (List (Nat × List UInt8)) := do
  let resolved ← ranges.mapM (readRange descriptors file)
  pure resolved.flatten

/-- The workers are joined in order.  The scope panics if one panicked that was not joined. -/
def joinWorkers : List (Except WorkerFailure (List (Nat × List UInt8))) →
    Except String (List (Nat × List UInt8))
  | [] => pure []
  | .error .panicked :: workers =>
    if workers.any (· matches .error .panicked) then throw "a scoped thread panicked"
    else throw "shard reader worker panicked"
  | .error (.failed message) :: workers =>
    if workers.any (· matches .error .panicked) then throw "a scoped thread panicked"
    else throw message
  | .ok resolved :: workers => do
    let others ← joinWorkers workers
    pure (resolved ++ others)

/-- What the workers read for a group, each a chunk of its ranges. -/
def readGroup (descriptors : List Descriptor) (file : List UInt8) (ranges : List Range) :
    Except String (List (Nat × List UInt8)) :=
  let workerCount := min ranges.length 8
  let rangesPerWorker := (ranges.length + workerCount - 1) / workerCount
  joinWorkers ((chunks rangesPerWorker ranges).map (readRanges descriptors file))

/-- `verify_shard`: the checksum of the whole file, which is read in parts. -/
def verifyShard (shard : ShardFile) : Except String ShardFile :=
  if shard.verified then pure shard
  else do
    let bytes ← readExactAt shard.file 0 shard.size.toNat
    if Sha256.hex bytes ≠ shard.checksum then throw "immutable shard checksum mismatch"
    else pure { shard with verified := true }

end

/-! ## Store -/

/-- `ShardStore`. -/
structure ShardStore (ρ : Type) where
  contracts : Table String ContractStore
  roots : List (String × Root)
  hostCache : HostCache ρ
  batchReadCalls : Nat
  batchReadBytes : Nat
  verifyFullShards : Bool

namespace ShardStore

variable {ρ : Type}

/-- One iteration of the loop of `open`. -/
def openRoot [IndexFormat] [DebugText] (contracts : Table String ContractStore)
    (root : String × Root) : Except String (Table String ContractStore) :=
  if root.1 = "" ∨ root.1 ∈ contracts then
    throw ("invalid or duplicate model contract " ++ DebugText.quote root.1)
  else do
    let contract ← openContract root.2
    pure (contracts.insert root.1 contract)

/-- `open`. -/
def «open» [IndexFormat] [DebugText] [Priority ρ] (roots : List (String × Root))
    (hostCacheBytes hostTenantMaxPercent : Nat) (verifyFullShards : Bool) :
    Except String (ShardStore ρ) := do
  let contracts ← roots.foldlM openRoot ∅
  if contracts.keys.isEmpty then throw "at least one immutable shard contract is required"
  else pure {
    contracts := contracts
    roots := roots
    hostCache := .new hostCacheBytes hostTenantMaxPercent
    batchReadCalls := 0
    batchReadBytes := 0
    verifyFullShards := verifyFullShards }

/-- One iteration of the loop of `reload`. -/
def reopenRoot [IndexFormat] (contracts : Table String ContractStore) (root : String × Root) :
    Except String (Table String ContractStore) := do
  let contract ← openContract root.2
  pure (contracts.insert root.1 contract)

/-- `reload`. -/
def reload [IndexFormat] : Fallible String (ShardStore ρ) Unit := do
  let self ← get
  let contracts ← Fallible.lift (self.roots.foldlM reopenRoot ∅)
  set { self with contracts := contracts }

/-! ### Resolution -/

/-- What the first loop of `resolve_many` has found: payloads, and the items of every contract
and shard. -/
structure Found where
  output : List (Option (List UInt8))
  groups : Table (String × String) (List Item)

/-- Add an item to its group. -/
def Found.push (found : Found) (contract : String) (item : Item) : Found :=
  let group := (contract, item.2.shard)
  { found with groups := found.groups.insert group ((found.groups.lookup group).getD [] ++ [item]) }

/-- Put a payload into the output. -/
def Found.fill (found : Found) (index : Nat) (payload : List UInt8) : Found :=
  { found with output := found.output.set index (some payload) }

section

variable [HostPriority ρ] [KeyHash] [IterationOrder] [Sha256]

/-- Keep a payload in the host cache. -/
def keep (tenant : String) (descriptor : Descriptor) (payload : List UInt8) :
    Fallible String (ShardStore ρ) Unit :=
  modify fun self =>
    { self with hostCache := self.hostCache.put tenant (cacheKey descriptor) payload }

/-- A tensor that is a file of its own. -/
def resolveObject (tenant : String) (descriptor : Descriptor) (root : Root) :
    Fallible String (ShardStore ρ) (List UInt8) := do
  let expected ← Fallible.lift
    (shardTensorBytes descriptor.rows descriptor.dimension descriptor.dtype)
  let payload ← Fallible.lift (openObject root descriptor.digest)
  Fallible.require (payload.length = expected)
    "immutable tensor object length disagrees with its descriptor"
  Fallible.require (Sha256.hex payload = descriptor.digest)
    "immutable tensor object checksum mismatch"
  modify fun self => { self with
    batchReadCalls := self.batchReadCalls + 1
    batchReadBytes := self.batchReadBytes + payload.length }
  keep tenant descriptor payload
  pure payload

/-- The entry is that of the tensor. -/
def checkEntry (entry : Entry) (descriptor : Descriptor) : Except String Unit :=
  if entry.rows ≠ descriptor.rows ∨ entry.dimension ≠ descriptor.dimension ∨
      entry.dtype ≠ descriptor.dtype then
    throw "tensor descriptor disagrees with the immutable shard index"
  else do
    let bytes ← shardTensorBytes descriptor.rows descriptor.dimension descriptor.dtype
    if entry.length.toNat ≠ bytes then
      throw "tensor descriptor disagrees with the immutable shard index"
    else pure ()

/-- A descriptor that is not in the host cache. -/
def locate (tenant : String) (index : Nat) (descriptor : Descriptor) (found : Found) :
    Fallible String (ShardStore ρ) Found := do
  let self ← get
  match self.contracts.lookup descriptor.contract with
  | none => throw "model contract has no immutable shard root"
  | some contract =>
    match contract.entries.lookup descriptor.digest with
    | none => do
      let payload ← resolveObject tenant descriptor contract.root
      pure (found.fill index payload)
    | some entry => do
      Fallible.lift (checkEntry entry descriptor)
      pure (found.push descriptor.contract (index, entry))

/-- The first loop of `resolve_many`. -/
def locateAll (tenant : String) :
    (index : Nat) → List Descriptor → Found → Fallible String (ShardStore ρ) Found
  | _, [], found => pure found
  | index, descriptor :: descriptors, found => do
    let cached ← Fallible.act fun self =>
      let result := self.hostCache.get (cacheKey descriptor)
      (result.1, { self with hostCache := result.2 })
    let found ←
      match cached with
      | some payload => pure (found.fill index payload)
      | none => locate tenant index descriptor found
    locateAll tenant (index + 1) descriptors found

/-- Verify a shard if the store is to do so. -/
def verify (contractName shardName : String) (contract : ContractStore) (shard : ShardFile) :
    Fallible String (ShardStore ρ) Unit := do
  let self ← get
  if self.verifyFullShards then
    let shard ← Fallible.lift (verifyShard shard)
    let contract := { contract with shards := contract.shards.insert shardName shard }
    set { self with contracts := self.contracts.insert contractName contract }
  else pure ()

/-- The payloads of a group are put into the output and the cache. -/
def keepAll (tenant : String) (descriptors : List Descriptor) :
    List (Nat × List UInt8) → List (Option (List UInt8)) →
      Fallible String (ShardStore ρ) (List (Option (List UInt8)))
  | [], output => pure output
  | (index, payload) :: resolved, output =>
    match descriptors[index]? with
    | none => throw "index out of bounds"
    | some descriptor => do
      keep tenant descriptor payload
      keepAll tenant descriptors resolved (output.set index (some payload))

/-- One iteration of the second loop of `resolve_many`. -/
def resolveGroup (tenant : String) (descriptors : List Descriptor) (contractName shardName : String)
    (items : List Item) (output : List (Option (List UInt8))) :
    Fallible String (ShardStore ρ) (List (Option (List UInt8))) := do
  let self ← get
  match self.contracts.lookup contractName with
  | none => throw "called Option::unwrap() on a None value"
  | some contract =>
    match contract.shards.lookup shardName with
    | none => throw "called Option::unwrap() on a None value"
    | some shard => do
      verify contractName shardName contract shard
      let ranges := rangesOf items
      let resolved ← Fallible.lift (readGroup descriptors shard.file ranges)
      modify fun self => { self with
        batchReadCalls := self.batchReadCalls + ranges.length
        batchReadBytes := self.batchReadBytes +
          (ranges.map fun range => (range.stop - range.start).toNat).sum }
      keepAll tenant descriptors resolved output

/-- The second loop of `resolve_many`. -/
def resolveGroups (tenant : String) (descriptors : List Descriptor) :
    List ((_ : String × String) × List Item) → List (Option (List UInt8)) →
      Fallible String (ShardStore ρ) (List (Option (List UInt8)))
  | [], output => pure output
  | ⟨(contractName, shardName), items⟩ :: groups, output => do
    let output ← resolveGroup tenant descriptors contractName shardName items output
    resolveGroups tenant descriptors groups output

/-- `resolve_many`. -/
def resolveMany (descriptors : List Descriptor) (tenant : String) :
    Fallible String (ShardStore ρ) (List (List UInt8)) := do
  let found ← locateAll tenant 0 descriptors ⟨List.replicate descriptors.length none, ∅⟩
  let output ← resolveGroups tenant descriptors (IterationOrder.arrange found.groups.entries)
    found.output
  Fallible.lift (output.mapM fun payload =>
    payload.elim (throw "tensor resolution produced no payload") pure)

end

end ShardStore

end VectorChord.Tilemaxsimd.Shards
