import VectorChord.Collections.Order
import VectorChord.Tilemaxsimd.Allocator

/-!
# The cache of a GPU arena

`GpuCache` keeps tensors in an arena, each as an entry with a range of its own.  An
admission evicts entries of its tenant until the tenant is within its limit and then
entries of any tenant until a free run is long enough; pinned entries and entries in use
stay.  Frequencies come from a sketch, and nothing is assumed about hashes or about
the arithmetic of priorities.
-/

namespace VectorChord.Tilemaxsimd

open Collections Transition

/-- The arithmetic of `f64` on the priorities of entries. -/
class Priority (ρ : Type) where
  zero : ρ
  /-- `inflation + frequency / bytes`. -/
  rate : (inflation : ρ) → (frequency bytes : Nat) → ρ
  max : ρ → ρ → ρ
  le : ρ → ρ → Bool
  totalCmp : ρ → ρ → Ordering

/-- `DefaultHasher` on a row number and a key. -/
class KeyHash where
  hash : (row : Nat) → (key : String) → Nat

/-! ## Sketch -/

/-- `TinyLfu`: four rows of 16-bit counters. -/
structure TinyLfu where
  width : Nat
  tables : List (List Nat)
  samples : Nat
  deriving DecidableEq, Repr

namespace TinyLfu

def new (width : Nat) : TinyLfu := ⟨width, List.replicate 4 (List.replicate width 0), 0⟩

variable [KeyHash]

/-- `indices`, one of the four. -/
def index (self : TinyLfu) (row : Nat) (key : String) : Nat := KeyHash.hash row key % self.width

/-- `estimate`. -/
def estimate (self : TinyLfu) (key : String) : Nat :=
  ((List.range 4).map fun row =>
    (self.tables.getD row []).getD (self.index row key) 0).min?.getD 0

/-- `increment`. -/
def increment (self : TinyLfu) (key : String) : Nat × TinyLfu :=
  let counted := { self with
    tables := self.tables.mapIdx fun row table =>
      table.modify (self.index row key) fun value => min (value + 1) 65535
    samples := self.samples + 1 }
  let estimate := max (counted.estimate key) 1
  if counted.width * 10 ≤ counted.samples then
    (estimate, { counted with
      tables := counted.tables.map fun table => table.map (· / 2)
      samples := counted.samples / 2 })
  else (estimate, counted)

end TinyLfu

/-! ## Cache -/

/-- `CacheEntry`. -/
structure CacheEntry (ρ : Type) where
  offset : Nat
  allocatedBytes : Nat
  payloadBytes : Nat
  rows : Nat
  dimension : Nat
  dtype : Nat
  references : Nat
  pinned : Bool
  ready : Bool
  ownerTenant : String
  priority : ρ

/-- `Admission`. -/
inductive Admission where
  | admitted (offset allocatedBytes : Nat)
  | rejected
  | deferred
  deriving DecidableEq, Repr

/-- `GpuCache`. -/
structure GpuCache (ρ : Type) where
  allocator : PageRunAllocator
  entries : Table String (CacheEntry ρ)
  sketch : TinyLfu
  inflation : ρ
  tenantAllocated : Table String Nat
  tenantReservations : Table String Nat
  defaultTenantMaxBytes : Nat
  pinnedMaxBytes : Nat
  pinnedBytes : Nat
  hits : Nat
  misses : Nat
  evictions : Nat
  admissionRejections : Nat

/-- Arguments of `admit_for_tenant`. -/
structure Tensor where
  tenant : String
  key : String
  payloadBytes : Nat
  rows : Nat
  dimension : Nat
  dtype : Nat
  pinned : Bool
  force : Bool
  deriving DecidableEq, Repr

/-- The entry that an admission stores. -/
def Tensor.entry {ρ : Type} (tensor : Tensor) (offset allocatedBytes : Nat) (priority : ρ) :
    CacheEntry ρ where
  offset := offset
  allocatedBytes := allocatedBytes
  payloadBytes := tensor.payloadBytes
  rows := tensor.rows
  dimension := tensor.dimension
  dtype := tensor.dtype
  references := 1
  pinned := tensor.pinned
  ready := false
  ownerTenant := tensor.tenant
  priority := priority

namespace GpuCache

variable {ρ : Type} [Priority ρ]

/-- `new_with_limits`.  The sum and the products are those of release builds, which
wrap. -/
def newWithLimits (capacity blockBytes tenantMaxPercent pinnedMaxPercent : Nat)
    (tenantReservations : Table String Nat) : Except String (GpuCache ρ) :=
  if tenantMaxPercent = 0 ∨ 100 < tenantMaxPercent ∨ 100 < pinnedMaxPercent ∨
      capacity < Table.total (fun _ bytes => bytes) tenantReservations % 2 ^ 64 then
    throw "invalid GPU tenant cache policy"
  else do
    let allocator ← PageRunAllocator.new capacity blockBytes
    pure {
      allocator := allocator
      entries := ∅
      sketch := .new 4096
      inflation := Priority.zero
      tenantAllocated := ∅
      tenantReservations := tenantReservations
      defaultTenantMaxBytes := capacity * tenantMaxPercent % 2 ^ 64 / 100
      pinnedMaxBytes := capacity * pinnedMaxPercent % 2 ^ 64 / 100
      pinnedBytes := 0
      hits := 0
      misses := 0
      evictions := 0
      admissionRejections := 0 }

/-- Bytes of a tenant, as the cache counts them. -/
def usage (self : GpuCache ρ) (tenant : String) : Nat := (self.tenantAllocated.lookup tenant).getD 0

/-- Bytes reserved for a tenant. -/
def reservation (self : GpuCache ρ) (tenant : String) : Nat :=
  (self.tenantReservations.lookup tenant).getD 0

/-- `contains`. -/
def contains (self : GpuCache ρ) (key : String) : Bool :=
  (self.entries.lookup key).any CacheEntry.ready

section
variable [KeyHash]

/-- `record_access_miss`. -/
def recordAccessMiss (self : GpuCache ρ) (key : String) : GpuCache ρ :=
  { self with sketch := (self.sketch.increment key).2, misses := self.misses + 1 }

/-- `get`. -/
def get (self : GpuCache ρ) (key : String) : Option (CacheEntry ρ) × GpuCache ρ :=
  let (frequency, sketch) := self.sketch.increment key
  let self := { self with sketch := sketch }
  match (self.entries.lookup key).filter CacheEntry.ready with
  | none => (none, { self with misses := self.misses + 1 })
  | some entry =>
    let entry := { entry with
      references := entry.references + 1
      priority := Priority.rate self.inflation frequency entry.allocatedBytes }
    (some entry, { self with
      entries := self.entries.insert key entry
      hits := self.hits + 1 })

end

/-- `acquire_existing`. -/
def acquireExisting (self : GpuCache ρ) (key : String) :
    Option (CacheEntry ρ) × GpuCache ρ :=
  match (self.entries.lookup key).filter CacheEntry.ready with
  | none => (none, self)
  | some entry =>
    let entry := { entry with references := entry.references + 1 }
    (some entry, { self with entries := self.entries.insert key entry })

/-- `can_evict`. -/
def canEvict (self : GpuCache ρ) (entry : CacheEntry ρ) : Bool :=
  entry.references == 0 && !entry.pinned &&
    self.reservation entry.ownerTenant ≤ self.usage entry.ownerTenant - entry.allocatedBytes

/-- The entry with the least priority among those that a test accepts. -/
def least [IterationOrder] (self : GpuCache ρ) (test : CacheEntry ρ → Bool) :
    Option (String × CacheEntry ρ) :=
  (minBy (fun left right => Priority.totalCmp left.2.priority right.2.priority)
    ((IterationOrder.arrange self.entries.entries).filter fun entry => test entry.2)).map
      fun entry => (entry.1, entry.2)

/-- `victim`. -/
def victim [IterationOrder] (self : GpuCache ρ) : Option (String × CacheEntry ρ) :=
  self.least self.canEvict

/-- `tenant_victim`. -/
def tenantVictim [IterationOrder] (self : GpuCache ρ) (tenant : String) :
    Option (String × CacheEntry ρ) :=
  self.least fun entry =>
    entry.ownerTenant == tenant && entry.references == 0 && !entry.pinned

/-- `remove_entry`. -/
def removeEntry (key : String) : Fallible String (GpuCache ρ) (CacheEntry ρ) := do
  let self ← MonadState.get
  match self.entries.lookup key with
  | none => throw "GPU cache entry disappeared"
  | some entry =>
    let released := (PageRunAllocator.release entry.offset).step self.allocator
    set { self with entries := self.entries.erase key, allocator := released.2 }
    match released.1 with
    | .error message => throw message
    | .ok _ => do
      if entry.pinned then
        modify fun self => { self with pinnedBytes := self.pinnedBytes - entry.allocatedBytes }
      match self.tenantAllocated.lookup entry.ownerTenant with
      | none => pure entry
      | some usage => do
        modify fun self => { self with
          tenantAllocated :=
            if usage - entry.allocatedBytes = 0 then
              self.tenantAllocated.erase entry.ownerTenant
            else self.tenantAllocated.insert entry.ownerTenant (usage - entry.allocatedBytes) }
        pure entry

/-- Remove a victim and count the eviction; `expect` panics if it has disappeared. -/
def evict (key : String) : Fallible String (GpuCache ρ) Unit := do
  let entry ← removeEntry key
  modify fun self => { self with
    inflation := Priority.max self.inflation entry.priority
    evictions := self.evictions + 1 }

/-- `release`. -/
def release (key : String) : Fallible String (GpuCache ρ) Unit := do
  let self ← MonadState.get
  match self.entries.lookup key with
  | none => throw "GPU cache entry disappeared"
  | some entry =>
    if entry.references = 0 then throw "GPU cache entry was released twice"
    else set { self with
      entries := self.entries.insert key { entry with references := entry.references - 1 } }

/-- `mark_ready`. -/
def markReady (key : String) : Fallible String (GpuCache ρ) Unit := do
  let self ← MonadState.get
  match self.entries.lookup key with
  | none => throw "GPU cache entry disappeared before upload completed"
  | some entry => set { self with entries := self.entries.insert key { entry with ready := true } }

/-- `remove`. -/
def remove (key : String) : Fallible String (GpuCache ρ) Unit := do
  let _ ← removeEntry key
  pure ()

/-! ## Admission -/

section
variable [KeyHash] [IterationOrder]

/-- The priority of an entry that is to be admitted. -/
def candidate (self : GpuCache ρ) (key : String) (bytes : Nat) : ρ :=
  Priority.rate self.inflation (max (self.sketch.estimate key) 1) bytes

/-- The limit of a tenant. -/
def tenantMaxBytes (self : GpuCache ρ) (tenant : String) : Nat :=
  max (self.reservation tenant) self.defaultTenantMaxBytes

/-- Reject a tensor. -/
def reject : Fallible String (GpuCache ρ) (Option Admission) := do
  modify fun self => { self with admissionRejections := self.admissionRejections + 1 }
  pure (some .rejected)

/-- The first loop of `admit_for_tenant`: evict entries of the tenant until there is room
within its limit.  `none` means that the loop has ended. -/
def makeTenantRoom (tensor : Tensor) (bytes : Nat) :
    (fuel : Nat) → Fallible String (GpuCache ρ) (Option Admission)
  | 0 => throw "no end of the loop"
  | fuel + 1 => do
    let self ← MonadState.get
    if saturatingAdd (self.usage tensor.tenant) bytes ≤ self.tenantMaxBytes tensor.tenant then
      pure none
    else
      match self.tenantVictim tensor.tenant with
      | none => pure (some .deferred)
      | some (victimKey, victim) =>
        if !tensor.force && Priority.le (self.candidate tensor.key bytes) victim.priority then
          reject
        else do
          evict victimKey
          makeTenantRoom tensor bytes fuel

/-- The second loop of `admit_for_tenant`: evict entries until a free run is long
enough. -/
def makeRoom (tensor : Tensor) (bytes : Nat) :
    (fuel : Nat) → Fallible String (GpuCache ρ) (Option Admission)
  | 0 => throw "no end of the loop"
  | fuel + 1 => do
    let self ← MonadState.get
    if bytes ≤ self.allocator.largestFree then pure none
    else
      match self.victim with
      | none => pure (some .deferred)
      | some (victimKey, victim) =>
        if !tensor.force && !tensor.pinned &&
            Priority.le (self.candidate tensor.key bytes) victim.priority then reject
        else do
          evict victimKey
          makeRoom tensor bytes fuel

/-- The end of `admit_for_tenant`: allocate a range and store the entry. -/
def place (tensor : Tensor) : Fallible String (GpuCache ρ) Admission := do
  let self ← MonadState.get
  match self.allocator.allocate tensor.payloadBytes with
  | (none, allocator) => do
    set { self with allocator := allocator }
    pure .deferred
  | (some (offset, allocatedBytes), allocator) => do
    set { self with
      allocator := allocator
      entries := self.entries.insert tensor.key
        (tensor.entry offset allocatedBytes (self.candidate tensor.key allocatedBytes))
      tenantAllocated :=
        self.tenantAllocated.insert tensor.tenant (self.usage tensor.tenant + allocatedBytes)
      pinnedBytes := if tensor.pinned then self.pinnedBytes + allocatedBytes else self.pinnedBytes }
    pure (.admitted offset allocatedBytes)

/-- The first loop with its condition: pinned tensors are not held to the limit of their
tenant.  Each iteration but the last removes an entry. -/
def tenantRoom (tensor : Tensor) (bytes : Nat) :
    Fallible String (GpuCache ρ) (Option Admission) := do
  let self ← MonadState.get
  if tensor.pinned then pure none
  else makeTenantRoom tensor bytes (self.entries.keys.length + 1)

/-- The loops of `admit_for_tenant`. -/
def makeSpace (tensor : Tensor) (bytes : Nat) :
    Fallible String (GpuCache ρ) (Option Admission) := do
  match ← tenantRoom tensor bytes with
  | some admission => pure (some admission)
  | none => do
    let self ← MonadState.get
    makeRoom tensor bytes (self.entries.keys.length + 1)

/-- `admit_for_tenant`. -/
def admitForTenant (tensor : Tensor) : Fallible String (GpuCache ρ) Admission := do
  let self ← MonadState.get
  match self.allocator.allocationBytes tensor.payloadBytes with
  | none => pure .deferred
  | some bytes =>
    if self.allocator.capacity < bytes then pure .deferred
    else if tensor.pinned ∧ self.pinnedMaxBytes < saturatingAdd self.pinnedBytes bytes then
      pure .deferred
    else do
      match ← makeSpace tensor bytes with
      | some admission => pure admission
      | none => place tensor

end

end GpuCache

end VectorChord.Tilemaxsimd
