import VectorChord.Tilemaxsimd.CacheRuns
import VectorChord.Tilemaxsimd.Engine

/-!
# Resident tensors

While a request is scored some of its tensors are held: each has a single reference to an
entry of its own.  All other entries are idle, and every entry that is ready has the bytes
of its tensor.
-/

namespace VectorChord.Tilemaxsimd

open Collections Transition List Fallible Table

variable {n : Nat} {ρ : Type}

/-! ## Entries -/

section

variable {store : ShardStore}

theorem SameTensor.payload {left right : Descriptor} (same : SameTensor left right) :
    store.payload left = store.payload right := by
  rw [ShardStore.payload, ShardStore.payload, same.contract, same.digest]

theorem SameTensor.fits {left right : Descriptor} (same : SameTensor left right)
    (fits : store.Fits left) : store.Fits right := by
  rw [ShardStore.Fits, ← same.rows, ← same.dimension, ← same.dtype, ← same.payload]
  exact fits

open Classical in
/-- The bytes of the tensor with a key. -/
noncomputable def ShardStore.bytes (store : ShardStore) (key : String) : List UInt8 :=
  if known : ∃ descriptor, cacheKey descriptor = key then store.payload known.choose else []

theorem ShardStore.bytes_cacheKey (descriptor : Descriptor) :
    store.bytes (cacheKey descriptor) = store.payload descriptor := by
  have known : ∃ other, cacheKey other = cacheKey descriptor := ⟨descriptor, rfl⟩
  rw [ShardStore.bytes, dif_pos known]
  exact (cacheKey_inj known.choose_spec).payload

end

/-- The entry is for the tensor of a descriptor. -/
structure Describes (store : ShardStore) (descriptor : Descriptor) (entry : CacheEntry ρ) :
    Prop where
  fits : store.Fits descriptor
  payloadBytes : entry.payloadBytes = (store.payload descriptor).length
  rows : entry.rows = descriptor.rows
  dimension : entry.dimension = descriptor.dimension
  dtype : entry.dtype = descriptor.dtype
  covers : entry.payloadBytes ≤ entry.allocatedBytes

/-- Two entries of the same shape in the same range. -/
structure SameShape (entry entry' : CacheEntry ρ) : Prop
    extends GpuCache.SameRange entry entry' where
  payloadBytes : entry'.payloadBytes = entry.payloadBytes
  rows : entry'.rows = entry.rows
  dimension : entry'.dimension = entry.dimension
  dtype : entry'.dtype = entry.dtype

variable {store : ShardStore} {descriptor : Descriptor} {entry : CacheEntry ρ}

theorem Describes.sameShape {entry' : CacheEntry ρ} (describes : Describes store descriptor entry)
    (same : SameShape entry entry') : Describes store descriptor entry' where
  fits := describes.fits
  payloadBytes := same.payloadBytes.trans describes.payloadBytes
  rows := same.rows.trans describes.rows
  dimension := same.dimension.trans describes.dimension
  dtype := same.dtype.trans describes.dtype
  covers := by
    rw [same.payloadBytes, same.allocatedBytes]
    exact describes.covers

/-- With the same key a descriptor describes the same entry. -/
theorem Describes.sameTensor {left right : Descriptor} (describes : Describes store left entry)
    (same : SameTensor left right) : Describes store right entry where
  fits := same.fits describes.fits
  payloadBytes := by
    rw [describes.payloadBytes, same.payload]
  rows := describes.rows.trans same.rows
  dimension := describes.dimension.trans same.dimension
  dtype := describes.dtype.trans same.dtype
  covers := describes.covers

/-- What `validate_entry` checks holds for the entry of a descriptor. -/
theorem Describes.validateEntry (describes : Describes store descriptor entry) :
    validateEntry descriptor entry = .ok () := by
  rcases shardTensorBytes_eq_ok describes.fits with ⟨length, small⟩
  have unwrapped : descriptor.rows * descriptor.dimension * scalarBytes descriptor.dtype %
      2 ^ 64 = entry.payloadBytes := by
    rw [describes.payloadBytes, length]
    unfold usizeMax at small
    omega
  unfold Tilemaxsimd.validateEntry
  rw [unwrapped, if_neg]
  · rfl
  · rintro (rows | dimension | dtype | payload | allocated)
    · exact rows describes.rows
    · exact dimension describes.dimension
    · exact dtype describes.dtype
    · exact payload rfl
    · exact absurd describes.covers (Nat.not_le_of_lt allocated)

/-! ## Devices -/

/-- The bytes of a tensor are at an offset. -/
def LoadedAt (store : ShardStore) (arena : Nat → UInt8) (key : String) (offset : Nat) : Prop :=
  slice arena offset (store.bytes key).length = store.bytes key

/-- The entry of a tensor that is held. -/
structure ResidentTensor.Holds (tensor : ResidentTensor n) (entry : CacheEntry ρ)
    (ready : Prop) : Prop where
  references : entry.references = 1
  offset : entry.offset = tensor.offset
  rows : entry.rows = tensor.rows
  ready : entry.ready = true ↔ ready

/-- The entries of a device that holds some tensors. -/
structure Holding (store : ShardStore) (arena : Nat → UInt8)
    (entries : Table String (CacheEntry ρ)) (held ready : ResidentTensor n → Prop) : Prop where
  described : ∀ key entry, entries.lookup key = some entry →
    ∃ descriptor, cacheKey descriptor = key ∧ Describes store descriptor entry
  loaded : ∀ key entry, entries.lookup key = some entry → entry.ready = true →
    LoadedAt store arena key entry.offset
  present : ∀ tensor, held tensor → ∃ entry, entries.lookup tensor.key = some entry ∧
    tensor.Holds entry (ready tensor)
  idle : ∀ key entry, entries.lookup key = some entry →
    (∀ tensor, held tensor → tensor.key ≠ key) → entry.references = 0 ∧ entry.ready = true

namespace Holding

variable {store : ShardStore} {arena : Nat → UInt8} {entries entries' : Table String (CacheEntry ρ)}
    {held held' ready ready' : ResidentTensor n → Prop} {key : String} {entry : CacheEntry ρ}

section

variable (holding : Holding store arena entries held ready)

include holding

/-- An entry is stored or replaced. -/
theorem insert
    (described : ∃ descriptor, cacheKey descriptor = key ∧ Describes store descriptor entry)
    (loaded : entry.ready = true → LoadedAt store arena key entry.offset)
    (here : ∀ tensor, held' tensor → tensor.key = key → tensor.Holds entry (ready' tensor))
    (free : (∀ tensor, held' tensor → tensor.key ≠ key) →
      entry.references = 0 ∧ entry.ready = true)
    (others : ∀ tensor, tensor.key ≠ key → (held' tensor ↔ held tensor))
    (same : ∀ tensor, held tensor → tensor.key ≠ key → (ready tensor ↔ ready' tensor)) :
    Holding store arena (entries.insert key entry) held' ready' where
  described other entry' found := by
    rcases lookup_insert_iff.mp found with ⟨rfl, rfl⟩ | ⟨_, known⟩
    · exact described
    · exact holding.described other entry' known
  loaded other entry' found isReady := by
    rcases lookup_insert_iff.mp found with ⟨rfl, rfl⟩ | ⟨_, known⟩
    · exact loaded isReady
    · exact holding.loaded other entry' known isReady
  present tensor isHeld := by
    by_cases equal : tensor.key = key
    · exact ⟨entry, lookup_insert_iff.mpr (.inl ⟨equal, rfl⟩), here tensor isHeld equal⟩
    · have before := (others tensor equal).mp isHeld
      rcases holding.present tensor before with ⟨entry', known, holds⟩
      refine ⟨entry', lookup_insert_iff.mpr (.inr ⟨equal, known⟩), ?_⟩
      exact { holds with ready := holds.ready.trans (same tensor before equal) }
  idle other entry' found unheld := by
    rcases lookup_insert_iff.mp found with ⟨rfl, rfl⟩ | ⟨different, known⟩
    · exact free unheld
    · apply holding.idle other entry' known
      intro tensor isHeld equal
      have apart : tensor.key ≠ key := fun here => different (equal.symm.trans here)
      exact unheld tensor ((others tensor apart).mpr isHeld) equal

/-- An entry of the same shape describes the same tensor. -/
theorem described_sameShape {entry' : CacheEntry ρ} (found : entries.lookup key = some entry)
    (shape : SameShape entry entry') :
    ∃ descriptor, cacheKey descriptor = key ∧ Describes store descriptor entry' := by
  rcases holding.described key entry found with ⟨descriptor, equal, describes⟩
  exact ⟨descriptor, equal, describes.sameShape shape⟩

/-- An entry is removed. -/
theorem erase (others : ∀ tensor, held' tensor ↔ held tensor ∧ tensor.key ≠ key) :
    Holding store arena (entries.erase key) held' ready where
  described other entry' found := holding.described other entry' (lookup_erase_iff.mp found).2
  loaded other entry' found := holding.loaded other entry' (lookup_erase_iff.mp found).2
  present tensor isHeld := by
    rcases (others tensor).mp isHeld with ⟨before, different⟩
    rcases holding.present tensor before with ⟨entry', known, holds⟩
    exact ⟨entry', lookup_erase_iff.mpr ⟨different, known⟩, holds⟩
  idle other entry' found unheld := by
    rcases lookup_erase_iff.mp found with ⟨different, known⟩
    apply holding.idle other entry' known
    intro tensor isHeld equal
    have apart : tensor.key ≠ key := fun here => different (equal.symm.trans here)
    exact unheld tensor ((others tensor).mpr ⟨isHeld, apart⟩) equal

/-- Entries that nobody holds are evicted. -/
theorem reduce
    (fewer : ∀ key entry, entries'.lookup key = some entry → entries.lookup key = some entry)
    (kept : ∀ key entry, entries.lookup key = some entry → entry.references ≠ 0 →
      entries'.lookup key = some entry) : Holding store arena entries' held ready where
  described key entry found := holding.described key entry (fewer key entry found)
  loaded key entry found := holding.loaded key entry (fewer key entry found)
  present tensor isHeld := by
    rcases holding.present tensor isHeld with ⟨entry, known, holds⟩
    have used : entry.references ≠ 0 := by
      rw [holds.references]
      exact one_ne_zero
    exact ⟨entry, kept tensor.key entry known used, holds⟩
  idle key entry found := holding.idle key entry (fewer key entry found)

/-- The bytes of an entry fit in its range. -/
theorem length_bytes_le (found : entries.lookup key = some entry) :
    (store.bytes key).length ≤ entry.allocatedBytes := by
  rcases holding.described key entry found with ⟨descriptor, rfl, describes⟩
  rw [ShardStore.bytes_cacheKey, ← describes.payloadBytes]
  exact describes.covers

theorem congr (same : ∀ tensor, held' tensor ↔ held tensor)
    (sameReady : ∀ tensor, held tensor → (ready tensor ↔ ready' tensor)) :
    Holding store arena entries held' ready' where
  described := holding.described
  loaded := holding.loaded
  present tensor isHeld := by
    have before := (same tensor).mp isHeld
    rcases holding.present tensor before with ⟨entry, known, holds⟩
    exact ⟨entry, known, { holds with ready := holds.ready.trans (sameReady tensor before) }⟩
  idle key entry found unheld :=
    holding.idle key entry found fun tensor isHeld => unheld tensor ((same tensor).mpr isHeld)

end

end Holding

/-! ## The engine -/

namespace Engine

/-- The engine holds some tensors, and some of those are ready. -/
structure Holds (store : ShardStore) (engine : Engine n ρ) (held : List (ResidentTensor n))
    (ready : ResidentTensor n → Prop) : Prop where
  distinct : (held.map ResidentTensor.key).Nodup
  inv : ∀ device, (engine.devices device).cache.Inv
  holding : ∀ device, Holding store (engine.devices device).arena
    (engine.devices device).cache.entries
    (fun tensor => tensor ∈ held ∧ tensor.device = device) ready

variable {store : ShardStore} {engine : Engine n ρ} {held held' : List (ResidentTensor n)}
    {ready ready' : ResidentTensor n → Prop} {tensor : ResidentTensor n} {cache : GpuCache ρ}
    {entry entry' : CacheEntry ρ}

@[simp] theorem devices_setCache_self (engine : Engine n ρ) (device : Fin n) (cache : GpuCache ρ) :
    (engine.setCache device cache).devices device = { engine.devices device with cache := cache } :=
  Function.update_self ..

theorem devices_setCache_ne (engine : Engine n ρ) {device other : Fin n}
    (different : other ≠ device)
    (cache : GpuCache ρ) : (engine.setCache device cache).devices other = engine.devices other :=
  Function.update_of_ne different ..

@[simp] theorem arena_setCache (engine : Engine n ρ) (device other : Fin n) (cache : GpuCache ρ) :
    ((engine.setCache device cache).devices other).arena = (engine.devices other).arena := by
  by_cases here : other = device
  · rw [here, devices_setCache_self]
  · rw [devices_setCache_ne engine here]

namespace Holds

theorem congr (ok : Holds store engine held ready) (permuted : held'.Perm held)
    (same : ∀ tensor ∈ held, ready tensor ↔ ready' tensor) : Holds store engine held' ready' where
  distinct := (permuted.map _).nodup_iff.mpr ok.distinct
  inv := ok.inv
  holding device := by
    apply (ok.holding device).congr
    · intro tensor
      rw [permuted.mem_iff]
    · intro tensor isHeld
      exact same tensor isHeld.1

variable {other : ResidentTensor n} {tenant : String}

/-- The cache of one device changes. -/
theorem setCache (ok : Holds store engine held ready) (device : Fin n)
    (distinct : (held'.map ResidentTensor.key).Nodup) (inv : cache.Inv)
    (holding : Holding store (engine.devices device).arena cache.entries
      (fun tensor => tensor ∈ held' ∧ tensor.device = device) ready')
    (others : ∀ tensor, tensor.device ≠ device → (tensor ∈ held' ↔ tensor ∈ held))
    (same : ∀ tensor ∈ held, tensor.device ≠ device → (ready tensor ↔ ready' tensor)) :
    Holds store (engine.setCache device cache) held' ready' where
  distinct := distinct
  inv other := by
    by_cases here : other = device
    · rw [here, devices_setCache_self]
      exact inv
    · rw [devices_setCache_ne engine here]
      exact ok.inv other
  holding other := by
    by_cases here : other = device
    · rw [here, devices_setCache_self]
      exact holding
    · rw [devices_setCache_ne engine here]
      apply (ok.holding other).congr
      · intro tensor
        constructor
        · rintro ⟨isHeld, rfl⟩
          exact ⟨(others tensor here).mp isHeld, rfl⟩
        · rintro ⟨isHeld, rfl⟩
          exact ⟨(others tensor here).mpr isHeld, rfl⟩
      · rintro tensor ⟨isHeld, rfl⟩
        exact same tensor isHeld here

/-- Entries that nobody holds are evicted. -/
theorem reduced (ok : Holds store engine held ready) {device : Fin n} (inv : cache.Inv)
    (fewer : GpuCache.Reduced tenant (engine.devices device).cache cache) :
    Holds store (engine.setCache device cache) held ready := by
  apply ok.setCache device ok.distinct inv
  · apply (ok.holding device).reduce fewer.entries
    intro key entry found used
    exact fewer.kept key entry found (.inl used)
  · intro tensor _
    rfl
  · intro tensor _ _
    rfl

/-- A tensor that differs from the first one is one of the others. -/
theorem mem_cons_of_ne {δ : Type} (f : ResidentTensor n → δ) (different : f other ≠ f tensor) :
    other ∈ tensor :: held ↔ other ∈ held := by
  have notFirst : other ≠ tensor := fun equal => different (congrArg f equal)
  rw [mem_cons, or_iff_right notFirst]

section

variable (ok : Holds store engine held ready)

include ok

/-- An entry under a key that nobody holds is stored or replaced, and is held from then on. -/
theorem taken {entries : Table String (CacheEntry ρ)}
    (holding : Holding store (engine.devices tensor.device).arena entries
      (fun other => other ∈ held ∧ other.device = tensor.device) ready)
    (unheld : ∀ other ∈ held, other.key ≠ tensor.key) (inv : cache.Inv)
    (inserted : cache.entries = entries.insert tensor.key entry)
    (described : ∃ descriptor, cacheKey descriptor = tensor.key ∧ Describes store descriptor entry)
    (loaded : entry.ready = true →
      LoadedAt store (engine.devices tensor.device).arena tensor.key entry.offset)
    (holds : tensor.Holds entry (ready tensor)) :
    Holds store (engine.setCache tensor.device cache) (tensor :: held) ready := by
  apply ok.setCache tensor.device
  · rw [map_cons, nodup_cons]
    constructor
    · intro member
      rcases mem_map.mp member with ⟨other, isHeld, equal⟩
      exact unheld other isHeld equal
    · exact ok.distinct
  · exact inv
  · rw [inserted]
    apply holding.insert described loaded
    · rintro other ⟨isHeld, _⟩ equal
      rcases mem_cons.mp isHeld with rfl | before
      · exact holds
      · exact absurd equal (unheld other before)
    · intro free
      exact absurd rfl (free tensor ⟨mem_cons_self, rfl⟩)
    · intro other different
      rw [mem_cons_of_ne ResidentTensor.key different]
    · intro other _ _
      rfl
  · intro other different
    exact mem_cons_of_ne ResidentTensor.device different
  · intro other _ _
    rfl

/-- A tensor that nobody holds is taken. -/
theorem acquired
    (found : (engine.devices tensor.device).cache.entries.lookup tensor.key = some entry)
    (isReady : entry.ready = true) (unheld : ∀ other ∈ held, other.key ≠ tensor.key)
    (inv : cache.Inv)
    (entries : cache.entries =
      (engine.devices tensor.device).cache.entries.insert tensor.key entry')
    (shape : SameShape entry entry') (references : entry'.references = entry.references + 1)
    (stays : entry'.ready = true) (offset : tensor.offset = entry'.offset)
    (rows : tensor.rows = entry'.rows) (tensorReady : ready tensor) :
    Holds store (engine.setCache tensor.device cache) (tensor :: held) ready := by
  have holding := ok.holding tensor.device
  have idle := holding.idle tensor.key entry found fun other isHeld => unheld other isHeld.1
  apply ok.taken holding unheld inv entries (holding.described_sameShape found shape)
  · intro _
    rw [shape.offset]
    exact holding.loaded tensor.key entry found isReady
  · exact ⟨by rw [references, idle.1], offset.symm, rows.symm, iff_of_true stays tensorReady⟩

/-- A tensor is admitted under a key that nobody holds. -/
theorem stored {middle : GpuCache ρ} {descriptor : Descriptor}
    (unheld : ∀ other ∈ held, other.key ≠ tensor.key) (inv : cache.Inv)
    (fewer : GpuCache.Reduced tenant (engine.devices tensor.device).cache middle)
    (entries : cache.entries = middle.entries.insert tensor.key entry)
    (key : cacheKey descriptor = tensor.key) (describes : Describes store descriptor entry)
    (references : entry.references = 1) (unready : entry.ready = false)
    (offset : entry.offset = tensor.offset) (rows : entry.rows = tensor.rows)
    (tensorUnready : ¬ ready tensor) :
    Holds store (engine.setCache tensor.device cache) (tensor :: held) ready := by
  have notReady : entry.ready ≠ true := by
    rw [unready]
    exact Bool.false_ne_true
  have evicted := (ok.holding tensor.device).reduce fewer.entries
    fun key entry found used => fewer.kept key entry found (.inl used)
  exact ok.taken evicted unheld inv entries ⟨descriptor, key, describes⟩
    (fun isReady => absurd isReady notReady)
    ⟨references, offset, rows, iff_of_false notReady tensorUnready⟩

end

section

variable (ok : Holds store engine (tensor :: held) ready)

include ok

/-- The other tensors of a list that is held have other keys. -/
theorem key_ne (member : other ∈ held) :
    other.key ≠ tensor.key := by
  intro equal
  apply (nodup_cons.mp ok.distinct).1
  rw [← equal]
  exact mem_map_of_mem member

/-- Without the first tensor the others are held. -/
theorem mem_tail (device : Fin n)
    (other : ResidentTensor n) : other ∈ held ∧ other.device = device ↔
      (other ∈ tensor :: held ∧ other.device = device) ∧ other.key ≠ tensor.key := by
  constructor
  · rintro ⟨member, here⟩
    exact ⟨⟨mem_cons_of_mem _ member, here⟩, ok.key_ne member⟩
  · rintro ⟨⟨member, here⟩, different⟩
    rcases mem_cons.mp member with rfl | behind
    · exact absurd rfl different
    · exact ⟨behind, here⟩

/-- A tensor that is ready can be released. -/
theorem wp_release [Priority ρ] (isReady : ready tensor) :
    Fallible.wp (onCache tensor.device (GpuCache.release tensor.key))
      (fun _ engine' => Holds store engine' held ready) (fun _ _ => False) engine := by
  rcases (ok.holding tensor.device).present tensor ⟨mem_cons_self, rfl⟩ with
    ⟨entry, found, holds⟩
  have used : entry.references ≠ 0 := by
    rw [holds.references]
    exact one_ne_zero
  have range : GpuCache.SameRange entry { entry with references := entry.references - 1 } :=
    ⟨rfl, rfl, rfl, rfl⟩
  have shape : SameShape entry { entry with references := entry.references - 1 } :=
    ⟨range, rfl, rfl, rfl, rfl⟩
  have done : (GpuCache.release tensor.key).step (engine.devices tensor.device).cache =
      (.ok (), (engine.devices tensor.device).cache.touched tensor.key
        { entry with references := entry.references - 1 }) := by
    rw [GpuCache.release, step_bind_get, found]
    dsimp only
    rw [if_neg used]
    rfl
  rw [onCache, wp_focus, wp_of_step_ok done]
  apply ok.setCache tensor.device (nodup_cons.mp ok.distinct).2
    ((ok.inv tensor.device).touched found range)
  · apply (ok.holding tensor.device).insert
    · exact (ok.holding tensor.device).described_sameShape found shape
    · exact (ok.holding tensor.device).loaded tensor.key entry found
    · rintro other ⟨isHeld, _⟩ equal
      exact absurd equal (ok.key_ne isHeld)
    · intro _
      constructor
      · change entry.references - 1 = 0
        rw [holds.references]
      · exact holds.ready.mpr isReady
    · intro other different
      rw [ok.mem_tail tensor.device other, and_iff_left different]
    · intro other _ _
      rfl
  · intro other different
    exact (mem_cons_of_ne ResidentTensor.device different).symm
  · intro other _ _
    rfl

/-- A tensor that is held can be removed. -/
theorem wp_remove [Priority ρ] :
    Fallible.wp (onCache tensor.device (GpuCache.remove tensor.key))
      (fun _ engine' => Holds store engine' held ready) (fun _ _ => False) engine := by
  rcases (ok.holding tensor.device).present tensor ⟨mem_cons_self, rfl⟩ with
    ⟨entry, found, _⟩
  have inv := ok.inv tensor.device
  rcases GpuCache.removeEntry_ok inv found with
    ⟨allocator, removed, allocatorInv, blockBytes, _, bytes, others⟩
  have done : (GpuCache.remove tensor.key).step (engine.devices tensor.device).cache =
      (.ok (), (engine.devices tensor.device).cache.without tensor.key entry allocator) := by
    rw [GpuCache.remove, step_bind_ok removed]
    rfl
  rw [onCache, wp_focus, wp_of_step_ok done]
  apply ok.setCache tensor.device (nodup_cons.mp ok.distinct).2
    (inv.without found allocatorInv blockBytes bytes others)
  · exact (ok.holding tensor.device).erase (ok.mem_tail tensor.device)
  · intro other different
    exact (mem_cons_of_ne ResidentTensor.device different).symm
  · intro other _ _
    rfl

end

/-- A tensor whose bytes have arrived can be marked as ready. -/
theorem wp_markReady (ok : Holds store engine held ready) (member : tensor ∈ held)
    (loaded : LoadedAt store (engine.devices tensor.device).arena tensor.key tensor.offset) :
    Fallible.wp (onCache tensor.device (GpuCache.markReady tensor.key))
      (fun _ engine' => Holds store engine' held (fun other => ready other ∨ other = tensor) ∧
        ∀ device, (engine'.devices device).arena = (engine.devices device).arena)
      (fun _ _ => False) engine := by
  rcases (ok.holding tensor.device).present tensor ⟨member, rfl⟩ with ⟨entry, found, holds⟩
  have range : GpuCache.SameRange entry { entry with ready := true } := ⟨rfl, rfl, rfl, rfl⟩
  have shape : SameShape entry { entry with ready := true } := ⟨range, rfl, rfl, rfl, rfl⟩
  have done : (GpuCache.markReady tensor.key).step (engine.devices tensor.device).cache =
      (.ok (), (engine.devices tensor.device).cache.touched tensor.key
        { entry with ready := true }) := by
    rw [GpuCache.markReady, step_bind_get, found]
    rfl
  rw [onCache, wp_focus, wp_of_step_ok done]
  constructor
  · apply ok.setCache tensor.device ok.distinct ((ok.inv tensor.device).touched found range)
    · apply (ok.holding tensor.device).insert
      · exact (ok.holding tensor.device).described_sameShape found shape
      · intro _
        rw [shape.offset, holds.offset]
        exact loaded
      · rintro other ⟨isHeld, _⟩ equal
        have same := inj_on_of_nodup_map ok.distinct isHeld member equal
        rw [same]
        exact ⟨holds.references, holds.offset, holds.rows, iff_of_true rfl (.inr rfl)⟩
      · intro free
        exact absurd rfl (free tensor ⟨member, rfl⟩)
      · intro other _
        rfl
      · intro other _ different
        have notSame : other ≠ tensor := fun equal => different (congrArg _ equal)
        rw [or_iff_left notSame]
    · intro other _
      rfl
    · intro other _ different
      have notSame : other ≠ tensor := fun equal => different (congrArg _ equal)
      rw [or_iff_left notSame]
  · intro device
    exact arena_setCache ..

end Holds

end Engine

end VectorChord.Tilemaxsimd
