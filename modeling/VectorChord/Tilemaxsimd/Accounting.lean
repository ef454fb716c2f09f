import VectorChord.Tilemaxsimd.Cache

/-!
# Accounting of the GPU cache

Every entry has an allocated run of its own, and the counters of tenants and of pinned
bytes follow the entries.  An eviction only removes entries that are neither pinned nor in
use, and outside of its own tenant none that a reservation protects.
-/

namespace VectorChord.Tilemaxsimd.GpuCache

open Collections Transition Fallible Table AList Bool

variable {ρ : Type}

/-! ## Sums over entries -/

/-- Bytes of the entries of a tenant. -/
def ownedBytes (cache : GpuCache ρ) (tenant : String) : Nat :=
  Table.total (fun _ entry => if entry.ownerTenant = tenant then entry.allocatedBytes else 0)
    cache.entries

/-- Bytes of the entries of a tenant that are not pinned. -/
def unpinnedBytes (cache : GpuCache ρ) (tenant : String) : Nat :=
  Table.total (fun _ entry =>
    if entry.ownerTenant = tenant ∧ entry.pinned = false then entry.allocatedBytes else 0)
    cache.entries

/-- Bytes of the pinned entries. -/
def pinnedEntryBytes (cache : GpuCache ρ) : Nat :=
  Table.total (fun _ entry => if entry.pinned then entry.allocatedBytes else 0) cache.entries

/-- Bytes of all entries. -/
def entryBytes (cache : GpuCache ρ) : Nat :=
  Table.total (fun _ entry => entry.allocatedBytes) cache.entries

theorem unpinnedBytes_le (cache : GpuCache ρ) (tenant : String) :
    cache.unpinnedBytes tenant ≤ cache.ownedBytes tenant := by
  apply total_le_total
  intro key entry
  split
  next owner => rw [if_pos owner.1]
  next => exact Nat.zero_le _

/-! ## Invariant -/

/-- The entry has an allocated run. -/
def Placed (cache : GpuCache ρ) (entry : CacheEntry ρ) : Prop :=
  ∃ start blocks, cache.allocator.Allocated start blocks ∧
    entry.offset = start * cache.allocator.blockBytes ∧
    entry.allocatedBytes = blocks * cache.allocator.blockBytes

/-- The invariant of the cache in every run. -/
structure Inv (cache : GpuCache ρ) : Prop where
  allocator : cache.allocator.Inv
  placed : ∀ key entry, cache.entries.lookup key = some entry → cache.Placed entry
  apart : ∀ key entry key' entry', cache.entries.lookup key = some entry →
    cache.entries.lookup key' = some entry' → entry.offset = entry'.offset → key = key'
  owned : ∀ tenant, cache.ownedBytes tenant ≤ cache.usage tenant
  positive : ∀ tenant bytes, cache.tenantAllocated.lookup tenant = some bytes → 0 < bytes
  accounted : Table.total (fun _ bytes => bytes) cache.tenantAllocated =
    cache.allocator.allocatedBytes
  pinned : cache.pinnedEntryBytes ≤ cache.pinnedBytes
  pinnedMax : cache.pinnedBytes ≤ cache.pinnedMaxBytes
  pinnedLimit : cache.pinnedMaxBytes < usizeMax
  quota : ∀ tenant, cache.unpinnedBytes tenant ≤
    max (cache.reservation tenant) cache.defaultTenantMaxBytes

/-- The counters are exact as long as no admission replaces an entry. -/
structure Exact (cache : GpuCache ρ) : Prop where
  owned : ∀ tenant, cache.ownedBytes tenant = cache.usage tenant
  pinned : cache.pinnedEntryBytes = cache.pinnedBytes
  entries : cache.entryBytes = cache.allocator.allocatedBytes

section

variable {cache after : GpuCache ρ} {key : String} {entry : CacheEntry ρ}

/-- The limits of the cache do not change. -/
structure SameLimits (cache after : GpuCache ρ) : Prop where
  reservations : after.tenantReservations = cache.tenantReservations
  tenantMax : after.defaultTenantMaxBytes = cache.defaultTenantMaxBytes
  pinnedMax : after.pinnedMaxBytes = cache.pinnedMaxBytes
  blockBytes : after.allocator.blockBytes = cache.allocator.blockBytes
  blockCount : after.allocator.blockCount = cache.allocator.blockCount

theorem SameLimits.refl (cache : GpuCache ρ) : SameLimits cache cache := ⟨rfl, rfl, rfl, rfl, rfl⟩

theorem SameLimits.trans {last : GpuCache ρ} (first : SameLimits cache after)
    (second : SameLimits after last) : SameLimits cache last where
  reservations := second.reservations.trans first.reservations
  tenantMax := second.tenantMax.trans first.tenantMax
  pinnedMax := second.pinnedMax.trans first.pinnedMax
  blockBytes := second.blockBytes.trans first.blockBytes
  blockCount := second.blockCount.trans first.blockCount

theorem SameLimits.reservation (same : SameLimits cache after) (tenant : String) :
    after.reservation tenant = cache.reservation tenant := by
  rw [GpuCache.reservation, GpuCache.reservation, same.reservations]

/-! ## Removing an entry -/

theorem Inv.allocatedBytes_le_usage (inv : cache.Inv)
    (found : cache.entries.lookup key = some entry) :
    0 < entry.allocatedBytes ∧ entry.allocatedBytes ≤ cache.usage entry.ownerTenant := by
  constructor
  · rcases inv.placed key entry found with ⟨start, blocks, allocated, _, bytes⟩
    rw [bytes]
    exact Nat.mul_pos (inv.allocator.tiling.positive start blocks (.inr allocated))
      inv.allocator.blockBytes
  · apply le_trans _ (inv.owned entry.ownerTenant)
    have part := weight_le_total (fun _ e =>
      if e.ownerTenant = entry.ownerTenant then e.allocatedBytes else 0) found
    rw [if_pos rfl] at part
    exact part

/-- The table of tenants after an entry is gone. -/
def withoutUsage (cache : GpuCache ρ) (entry : CacheEntry ρ) : Table String Nat :=
  if cache.usage entry.ownerTenant - entry.allocatedBytes = 0 then
    cache.tenantAllocated.erase entry.ownerTenant
  else cache.tenantAllocated.insert entry.ownerTenant
    (cache.usage entry.ownerTenant - entry.allocatedBytes)

theorem total_withoutUsage {bytes : Nat}
    (known : cache.tenantAllocated.lookup entry.ownerTenant = some bytes)
    (enough : entry.allocatedBytes ≤ bytes) :
    entry.allocatedBytes + Table.total (fun _ bytes => bytes) (cache.withoutUsage entry) =
      Table.total (fun _ bytes => bytes) cache.tenantAllocated := by
  have whole := total_erase (fun _ bytes => bytes) known
  have current : cache.usage entry.ownerTenant = bytes := by rw [usage, known]; rfl
  unfold withoutUsage
  split
  next zero => omega
  next =>
    rw [total_insert]
    omega

/-- The state after `remove_entry`, given that of the allocator. -/
def without (cache : GpuCache ρ) (key : String) (entry : CacheEntry ρ)
    (allocator : PageRunAllocator) : GpuCache ρ :=
  { cache with
    entries := cache.entries.erase key
    allocator := allocator
    pinnedBytes :=
      if entry.pinned then cache.pinnedBytes - entry.allocatedBytes else cache.pinnedBytes
    tenantAllocated := cache.withoutUsage entry }

theorem Inv.lookup_tenant (inv : cache.Inv) (found : cache.entries.lookup key = some entry) :
    cache.tenantAllocated.lookup entry.ownerTenant = some (cache.usage entry.ownerTenant) := by
  have bytes := inv.allocatedBytes_le_usage found
  cases known : cache.tenantAllocated.lookup entry.ownerTenant with
  | some usage => rw [GpuCache.usage, known]; rfl
  | none =>
    rw [usage, known, Option.getD_none] at bytes
    omega

/-- `remove_entry` succeeds on every entry. -/
theorem removeEntry_ok (inv : cache.Inv) (found : cache.entries.lookup key = some entry) :
    ∃ allocator, (removeEntry key).step cache = (.ok entry, cache.without key entry allocator) ∧
      allocator.Inv ∧ allocator.blockBytes = cache.allocator.blockBytes ∧
      allocator.blockCount = cache.allocator.blockCount ∧
      entry.allocatedBytes + allocator.allocatedBytes = cache.allocator.allocatedBytes ∧
      ∀ start blocks, cache.allocator.Allocated start blocks →
        entry.offset ≠ start * cache.allocator.blockBytes → allocator.Allocated start blocks := by
  rcases inv.placed key entry found with ⟨start, blocks, allocated, offset, bytes⟩
  rcases PageRunAllocator.release_ok inv.allocator allocated with
    ⟨allocator, done, allocatorInv, blockBytes, blockCount, erased⟩
  refine ⟨allocator, ?_, allocatorInv, blockBytes, blockCount, ?_, ?_⟩
  · rw [removeEntry, step_bind_get, found]
    dsimp only
    rw [offset, done, step_bind_ok (step_set _ _)]
    rw [inv.lookup_tenant found]
    unfold without withoutUsage
    cases entry.pinned <;> rfl
  · rw [bytes, PageRunAllocator.allocatedBytes, erased, blockBytes]
    exact total_erase (fun _ blocks => blocks * cache.allocator.blockBytes) allocated
  · intro start' blocks' other different
    rw [PageRunAllocator.Allocated, erased, lookup_erase_ne]
    · exact other
    · intro same
      rw [same, offset] at different
      exact different rfl

variable {allocator : PageRunAllocator} {tenant : String}

/-- A sum over the entries without one of them. -/
theorem total_without (allocator : PageRunAllocator) (weight : String → CacheEntry ρ → Nat)
    (found : cache.entries.lookup key = some entry) :
    Table.total weight (cache.without key entry allocator).entries =
      Table.total weight cache.entries - weight key entry :=
  Nat.eq_sub_of_add_eq' (total_erase weight found)

theorem usage_without (tenant : String) :
    (cache.without key entry allocator).usage tenant =
      cache.usage tenant - if entry.ownerTenant = tenant then entry.allocatedBytes else 0 := by
  change ((cache.withoutUsage entry).lookup tenant).getD 0 = _
  unfold withoutUsage
  by_cases owner : entry.ownerTenant = tenant
  · rw [if_pos owner, owner]
    split
    next zero => rw [lookup_erase, zero]; rfl
    next => rw [lookup_insert]; rfl
  · rw [if_neg owner]
    split
    next => rw [lookup_erase_ne (Ne.symm owner)]; rfl
    next => rw [lookup_insert_ne (Ne.symm owner)]; rfl

theorem pinnedBytes_without : (cache.without key entry allocator).pinnedBytes =
    cache.pinnedBytes - if entry.pinned then entry.allocatedBytes else 0 := by
  unfold without
  split <;> rfl

theorem Inv.without (inv : cache.Inv) (found : cache.entries.lookup key = some entry)
    (allocatorInv : allocator.Inv) (blockBytes : allocator.blockBytes = cache.allocator.blockBytes)
    (bytes : entry.allocatedBytes + allocator.allocatedBytes = cache.allocator.allocatedBytes)
    (others : ∀ start blocks, cache.allocator.Allocated start blocks →
      entry.offset ≠ start * cache.allocator.blockBytes → allocator.Allocated start blocks) :
    (cache.without key entry allocator).Inv where
  allocator := allocatorInv
  placed key' entry' found' := by
    rcases lookup_erase_iff.mp found' with ⟨different, known⟩
    rcases inv.placed key' entry' known with ⟨start, blocks, allocated, offset, size⟩
    refine ⟨start, blocks, others start blocks allocated ?_, ?_, ?_⟩
    · intro same
      exact different (inv.apart key' entry' key entry known found (offset.trans same.symm))
    · rw [offset]
      exact congrArg _ blockBytes.symm
    · rw [size]
      exact congrArg _ blockBytes.symm
  apart key₁ entry₁ key₂ entry₂ found₁ found₂ :=
    inv.apart key₁ entry₁ key₂ entry₂ (lookup_erase_iff.mp found₁).2
      (lookup_erase_iff.mp found₂).2
  owned tenant := by
    rw [usage_without, ownedBytes, total_without allocator _ found]
    exact Nat.sub_le_sub_right (inv.owned tenant) _
  positive tenant bytes' known := by
    change (cache.withoutUsage entry).lookup tenant = some bytes' at known
    unfold withoutUsage at known
    split at known
    next => exact inv.positive tenant bytes' (lookup_erase_iff.mp known).2
    next rest =>
      rcases lookup_insert_iff.mp known with ⟨_, rfl⟩ | ⟨_, old⟩
      · exact pos_of_ne_zero rest
      · exact inv.positive tenant bytes' old
  accounted := by
    have sum := total_withoutUsage (inv.lookup_tenant found) (inv.allocatedBytes_le_usage found).2
    have before := inv.accounted
    change total (fun _ bytes => bytes) (cache.withoutUsage entry) = allocator.allocatedBytes
    omega
  pinned := by
    rw [pinnedBytes_without, pinnedEntryBytes, total_without allocator _ found]
    exact Nat.sub_le_sub_right inv.pinned _
  pinnedMax := by
    rw [pinnedBytes_without]
    exact le_trans (Nat.sub_le _ _) inv.pinnedMax
  pinnedLimit := inv.pinnedLimit
  quota tenant := by
    apply le_trans _ (inv.quota tenant)
    rw [unpinnedBytes, total_without allocator _ found]
    exact Nat.sub_le _ _

theorem Exact.without (exact_ : cache.Exact) (found : cache.entries.lookup key = some entry)
    (bytes : entry.allocatedBytes + allocator.allocatedBytes = cache.allocator.allocatedBytes) :
    (cache.without key entry allocator).Exact where
  owned tenant := by
    rw [usage_without, ownedBytes, total_without allocator _ found, ← exact_.owned]
    rfl
  pinned := by
    rw [pinnedBytes_without, pinnedEntryBytes, total_without allocator _ found, ← exact_.pinned]
    rfl
  entries := by
    rw [entryBytes, total_without allocator _ found]
    exact (congrArg (· - _) exact_.entries).trans (Nat.eq_sub_of_add_eq' bytes).symm

section

variable (sketch : TinyLfu) (inflation : ρ) (hits misses evictions rejections : Nat)

/-- Statistics and priorities are not part of the invariant. -/
theorem Inv.counters (inv : cache.Inv) :
    ({ cache with
      sketch := sketch, inflation := inflation, hits := hits, misses := misses
      evictions := evictions, admissionRejections := rejections } : GpuCache ρ).Inv :=
  ⟨inv.allocator, inv.placed, inv.apart, inv.owned, inv.positive, inv.accounted, inv.pinned,
    inv.pinnedMax, inv.pinnedLimit, inv.quota⟩

theorem Exact.counters (exact_ : cache.Exact) :
    ({ cache with
      sketch := sketch, inflation := inflation, hits := hits, misses := misses
      evictions := evictions, admissionRejections := rejections } : GpuCache ρ).Exact :=
  ⟨exact_.owned, exact_.pinned, exact_.entries⟩

end

/-! ## Evictions -/

/-- What the evictions for a tenant may do. -/
structure Reduced (tenant : String) (cache after : GpuCache ρ) : Prop
    extends SameLimits cache after where
  entries : ∀ key entry, after.entries.lookup key = some entry →
    cache.entries.lookup key = some entry
  kept : ∀ key entry, cache.entries.lookup key = some entry →
    entry.references ≠ 0 ∨ entry.pinned = true → after.entries.lookup key = some entry
  usage : ∀ other, after.usage other ≤ cache.usage other
  reserved : ∀ other, other ≠ tenant →
    min (cache.usage other) (cache.reservation other) ≤ after.usage other
  pinnedBytes : after.pinnedBytes = cache.pinnedBytes

theorem Reduced.refl (tenant : String) (cache : GpuCache ρ) : Reduced tenant cache cache :=
  ⟨.refl cache, fun _ _ found => found, fun _ _ found _ => found, fun _ => le_refl _,
    fun _ _ => min_le_left _ _, rfl⟩

theorem Reduced.trans {last : GpuCache ρ} (first : Reduced tenant cache after)
    (second : Reduced tenant after last) : Reduced tenant cache last where
  toSameLimits := first.toSameLimits.trans second.toSameLimits
  entries key entry found := first.entries key entry (second.entries key entry found)
  kept key entry found used := second.kept key entry (first.kept key entry found used) used
  usage other := le_trans (second.usage other) (first.usage other)
  reserved other different := by
    have reservation := first.reservation other
    have before := first.reserved other different
    have behind := second.reserved other different
    omega
  pinnedBytes := second.pinnedBytes.trans first.pinnedBytes

theorem Reduced.counters (reduced : Reduced tenant cache after) (sketch : TinyLfu) (inflation : ρ)
    (hits misses evictions rejections : Nat) :
    Reduced tenant cache { after with
      sketch := sketch, inflation := inflation, hits := hits, misses := misses
      evictions := evictions, admissionRejections := rejections } :=
  ⟨⟨reduced.reservations, reduced.tenantMax, reduced.pinnedMax, reduced.blockBytes,
    reduced.blockCount⟩, reduced.entries, reduced.kept, reduced.usage, reduced.reserved,
    reduced.pinnedBytes⟩

/-- Removing an entry that is neither pinned nor in use, of the tenant itself or within
what the reservation of its tenant allows. -/
theorem reduced_without (blockBytes : allocator.blockBytes = cache.allocator.blockBytes)
    (blockCount : allocator.blockCount = cache.allocator.blockCount)
    (found : cache.entries.lookup key = some entry) (unused : entry.references = 0)
    (unpinned : entry.pinned = false)
    (allowed : entry.ownerTenant = tenant ∨ cache.reservation entry.ownerTenant ≤
      cache.usage entry.ownerTenant - entry.allocatedBytes) :
    Reduced tenant cache (cache.without key entry allocator) where
  toSameLimits := ⟨rfl, rfl, rfl, blockBytes, blockCount⟩
  entries key' entry' known := (lookup_erase_iff.mp known).2
  kept key' entry' known used := by
    apply lookup_erase_iff.mpr
    apply And.intro _ known
    intro same
    rw [same, found] at known
    cases known
    rcases used with used | used
    · exact used unused
    · rw [unpinned] at used
      cases used
  usage other := by
    rw [usage_without]
    exact Nat.sub_le _ _
  reserved other different := by
    rw [usage_without]
    split
    next owner =>
      rcases allowed with same | reserved
      · exact absurd (owner.symm.trans same) different
      · rw [← owner]
        exact le_trans (min_le_right _ _) reserved
    next => exact min_le_left _ _
  pinnedBytes := by
    rw [pinnedBytes_without, unpinned]
    rfl

/-- Evictions for a tenant that keep the invariant. -/
structure Evicted (tenant : String) (cache after : GpuCache ρ) : Prop
    extends Reduced tenant cache after where
  inv : after.Inv
  exact_ : cache.Exact → after.Exact

theorem Evicted.refl (tenant : String) (inv : cache.Inv) : Evicted tenant cache cache :=
  ⟨.refl tenant cache, inv, id⟩

theorem Evicted.trans {last : GpuCache ρ} (first : Evicted tenant cache after)
    (second : Evicted tenant after last) : Evicted tenant cache last :=
  ⟨first.toReduced.trans second.toReduced, second.inv, second.exact_ ∘ first.exact_⟩

theorem Evicted.counters (evicted : Evicted tenant cache after) (sketch : TinyLfu) (inflation : ρ)
    (hits misses evictions rejections : Nat) :
    Evicted tenant cache { after with
      sketch := sketch, inflation := inflation, hits := hits, misses := misses
      evictions := evictions, admissionRejections := rejections } :=
  ⟨evicted.toReduced.counters _ _ _ _ _ _, evicted.inv.counters _ _ _ _ _ _,
    fun exact_ => (evicted.exact_ exact_).counters _ _ _ _ _ _⟩

variable [Priority ρ]

/-- Such an entry can be evicted. -/
theorem evict_ok (inv : cache.Inv) (found : cache.entries.lookup key = some entry)
    (unused : entry.references = 0) (unpinned : entry.pinned = false)
    (allowed : entry.ownerTenant = tenant ∨ cache.reservation entry.ownerTenant ≤
      cache.usage entry.ownerTenant - entry.allocatedBytes) :
    ∃ after, (evict key).step cache = (.ok (), after) ∧ Evicted tenant cache after ∧
      after.entries.keys.length + 1 = cache.entries.keys.length := by
  rcases removeEntry_ok inv found with
    ⟨allocator, removal, allocatorInv, blockBytes, blockCount, bytes, others⟩
  have done : (evict key).step cache = (.ok (), { cache.without key entry allocator with
      inflation := Priority.max cache.inflation entry.priority
      evictions := cache.evictions + 1 }) := by
    rw [evict, step_bind_ok removal]
    rfl
  have evicted : Evicted tenant cache (cache.without key entry allocator) :=
    ⟨reduced_without blockBytes blockCount found unused unpinned allowed,
      inv.without found allocatorInv blockBytes bytes others, fun exact_ =>
        exact_.without found bytes⟩
  exact ⟨_, done, evicted.counters _ _ _ _ _ _, length_erase (mem_iff_lookup.mpr ⟨entry, found⟩)⟩

end

section Loops

variable [Priority ρ] [IterationOrder] {cache : GpuCache ρ}

theorem least_eq_some {test : CacheEntry ρ → Bool} {key : String} {entry : CacheEntry ρ}
    (found : cache.least test = some (key, entry)) :
    cache.entries.lookup key = some entry ∧ test entry = true := by
  rcases Option.map_eq_some_iff.mp found with ⟨chosen, best, same⟩
  cases same
  have member := List.mem_filter.mp (mem_of_minBy best)
  have inside := (IterationOrder.perm cache.entries.entries).mem_iff.mp member.1
  exact ⟨mem_lookup_iff.mpr inside, member.2⟩

/-- What an eviction loop does: it ends, and if it does not give up there is room. -/
def MakesRoom (tenant : String) (room : GpuCache ρ → Prop)
    (program : Fallible String (GpuCache ρ) (Option Admission)) (cache : GpuCache ρ) : Prop :=
  ∃ result after, program.step cache = (.ok result, after) ∧ Evicted tenant cache after ∧
    (result = none → room after) ∧
    (result = none ∨ result = some .rejected ∨ result = some .deferred)

/-- A loop that evicts an entry in each turn. -/
theorem makesRoom_loop {tenant : String} (room : GpuCache ρ → Prop) [DecidablePred room]
    (test : GpuCache ρ → CacheEntry ρ → Bool) (refused : GpuCache ρ → CacheEntry ρ → Bool)
    {loop : Nat → Fallible String (GpuCache ρ) (Option Admission)}
    (turn : ∀ fuel, loop (fuel + 1) = do
      let self ← MonadState.get
      if room self then pure none
      else match self.least (test self) with
        | none => pure (some .deferred)
        | some (key, victim) => if refused self victim then reject else do evict key; loop fuel)
    (allowed : ∀ cache entry, test cache entry = true → entry.references = 0 ∧
      entry.pinned = false ∧ (entry.ownerTenant = tenant ∨ cache.reservation entry.ownerTenant ≤
        cache.usage entry.ownerTenant - entry.allocatedBytes))
    {fuel : Nat} (inv : cache.Inv) (enough : cache.entries.keys.length < fuel) :
    MakesRoom tenant room (loop fuel) cache := by
  have stays := Evicted.refl tenant inv
  induction fuel generalizing cache with
  | zero => exact absurd enough (Nat.not_lt_zero _)
  | succ fuel ih =>
    rw [turn, MakesRoom, step_bind_get]
    split
    next free => exact ⟨none, cache, rfl, stays, fun _ => free, .inl rfl⟩
    next =>
      cases chosen : cache.least (test cache) with
      | none => exact ⟨_, cache, rfl, stays, nofun, .inr (.inr rfl)⟩
      | some victim =>
        rcases least_eq_some chosen with ⟨found, accepted⟩
        dsimp only
        split
        next => exact ⟨_, _, rfl, stays.counters _ _ _ _ _ _, nofun, .inr (.inl rfl)⟩
        next =>
          rcases allowed cache _ accepted with ⟨unused, unpinned, reserved⟩
          rcases evict_ok inv found unused unpinned reserved with ⟨middle, evicted, first, fewer⟩
          rcases ih first.inv (by omega) (.refl _ first.inv) with
            ⟨result, after, done, second, ends⟩
          exact ⟨result, after, by rw [step_bind_ok evicted, done], first.trans second, ends⟩

variable [KeyHash]

/-- The first loop makes room for the tenant. -/
theorem makeTenantRoom_ok (tensor : Tensor) (bytes : Nat) {fuel : Nat} (inv : cache.Inv)
    (enough : cache.entries.keys.length < fuel) :
    MakesRoom tensor.tenant (fun after => saturatingAdd (after.usage tensor.tenant) bytes ≤
      after.tenantMaxBytes tensor.tenant) (makeTenantRoom tensor bytes fuel) cache := by
  refine makesRoom_loop _ (fun _ entry => entry.ownerTenant == tensor.tenant &&
    entry.references == 0 && !entry.pinned) (fun self victim => !tensor.force &&
      Priority.le (self.candidate tensor.key bytes) victim.priority) (fun _ => rfl)
    (fun _ entry test => ?_) inv enough
  simp only [and_eq_true, beq_iff_eq, not_eq_true'] at test
  exact ⟨test.1.2, test.2, .inl test.1.1⟩

/-- The second loop makes room for a run. -/
theorem makeRoom_ok (tensor : Tensor) (bytes : Nat) {fuel : Nat} (inv : cache.Inv)
    (enough : cache.entries.keys.length < fuel) :
    MakesRoom tensor.tenant (fun after => bytes ≤ after.allocator.largestFree)
      (makeRoom tensor bytes fuel) cache := by
  refine makesRoom_loop _ canEvict (fun self victim => !tensor.force && !tensor.pinned &&
    Priority.le (self.candidate tensor.key bytes) victim.priority) (fun _ => rfl)
    (fun _ entry test => ?_) inv enough
  simp only [canEvict, and_eq_true, beq_iff_eq, not_eq_true', decide_eq_true_eq] at test
  exact ⟨test.1.1, test.1.2, .inr test.2⟩

end Loops

end VectorChord.Tilemaxsimd.GpuCache
