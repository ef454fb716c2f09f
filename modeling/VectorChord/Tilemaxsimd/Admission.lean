import VectorChord.Tilemaxsimd.Accounting

/-!
# Admissions to the GPU cache

An admission ends: it defers, rejects or stores an entry, and once the eviction loops are
through the allocator has a run for it.  All operations keep the invariant, so it holds in
every run of the cache.
-/

namespace VectorChord.Tilemaxsimd.GpuCache

open Collections Transition Fallible Table Option AList

variable {ρ : Type}

/-! ## Storing an entry -/

section

variable {cache after : GpuCache ρ} {key : String} {entry : CacheEntry ρ}
  {allocator : PageRunAllocator}

/-- The state after an entry is stored, given that of the allocator. -/
def stored (cache : GpuCache ρ) (key : String) (entry : CacheEntry ρ)
    (allocator : PageRunAllocator) : GpuCache ρ :=
  { cache with
    allocator := allocator
    entries := cache.entries.insert key entry
    tenantAllocated := cache.tenantAllocated.insert entry.ownerTenant
      (cache.usage entry.ownerTenant + entry.allocatedBytes)
    pinnedBytes :=
      if entry.pinned then cache.pinnedBytes + entry.allocatedBytes else cache.pinnedBytes }

theorem usage_stored {allocator : PageRunAllocator} (tenant : String) :
    (cache.stored key entry allocator).usage tenant =
      (if entry.ownerTenant = tenant then entry.allocatedBytes else 0) + cache.usage tenant := by
  by_cases owner : entry.ownerTenant = tenant
  · rw [if_pos owner, ← owner, usage, stored, lookup_insert]
    exact add_comm _ _
  · rw [if_neg owner, usage, stored, lookup_insert_ne (Ne.symm owner), Nat.zero_add]
    rfl

theorem pinnedBytes_stored : (cache.stored key entry allocator).pinnedBytes =
    (if entry.pinned then entry.allocatedBytes else 0) + cache.pinnedBytes := by
  unfold stored
  split
  next => exact add_comm _ _
  next => exact (Nat.zero_add _).symm

/-- A sum over the entries with a new one, which may replace an old one. -/
theorem total_stored_le (weight : String → CacheEntry ρ → Nat) :
    Table.total weight (cache.stored key entry allocator).entries ≤
      weight key entry + Table.total weight cache.entries :=
  Nat.add_le_add_left (total_erase_le weight cache.entries key) _

/-- The run of a new entry is cut out of the free space. -/
structure Cut (entry : CacheEntry ρ) (cache : GpuCache ρ) (allocator : PageRunAllocator) :
    Prop where
  inv : allocator.Inv
  blockBytes : allocator.blockBytes = cache.allocator.blockBytes
  blockCount : allocator.blockCount = cache.allocator.blockCount
  run : ∃ start blocks, (∀ length, ¬ cache.allocator.Allocated start length) ∧
    allocator.allocated = cache.allocator.allocated.insert start blocks ∧
    entry.offset = start * cache.allocator.blockBytes ∧
    entry.allocatedBytes = blocks * cache.allocator.blockBytes

section

variable (cut : Cut entry cache allocator)

include cut

theorem Cut.allocatedBytes :
    allocator.allocatedBytes = entry.allocatedBytes + cache.allocator.allocatedBytes := by
  rcases cut.run with ⟨start, blocks, new, same, _, bytes⟩
  rw [bytes]
  exact PageRunAllocator.allocatedBytes_insert cut.blockBytes new same

/-- What a tenant uses after the allocation is still a machine integer. -/
theorem Cut.usage_le (inv : cache.Inv) (tenant : String) :
    cache.usage tenant + entry.allocatedBytes ≤ usizeMax := by
  have used : cache.usage tenant ≤ cache.allocator.allocatedBytes := by
    rw [← inv.accounted, usage]
    cases known : cache.tenantAllocated.lookup tenant with
    | none => exact Nat.zero_le _
    | some bytes => exact weight_le_total (fun _ bytes => bytes) known
  have whole := cut.allocatedBytes
  have inside := Nat.le_trans cut.inv.allocatedBytes_le cut.inv.bounded
  omega

theorem Cut.allocated {start blocks : Nat}
    (old : cache.allocator.Allocated start blocks) :
    allocator.Allocated start blocks ∧ entry.offset ≠ start * cache.allocator.blockBytes := by
  rcases cut.run with ⟨start', blocks', new, same, offset, _⟩
  have different : start ≠ start' := by
    intro equal
    rw [equal] at old
    exact new blocks old
  constructor
  · rw [PageRunAllocator.Allocated, same, lookup_insert_ne different]
    exact old
  · rw [offset]
    intro equal
    have positive := cut.inv.blockBytes
    rw [cut.blockBytes] at positive
    exact different (Nat.eq_of_mul_eq_mul_right positive equal).symm

end

theorem total_tenants_stored :
    Table.total (fun _ bytes => bytes) (cache.stored key entry allocator).tenantAllocated =
      entry.allocatedBytes + Table.total (fun _ bytes => bytes) cache.tenantAllocated := by
  change Table.total _ (cache.tenantAllocated.insert _ _) = _
  rw [total_insert]
  cases known : cache.tenantAllocated.lookup entry.ownerTenant with
  | none =>
    rw [usage, known, erase_of_notMem (lookup_eq_none.mp known)]
    exact congrArg (· + _) (Nat.zero_add _)
  | some bytes =>
    have whole := total_erase (fun _ bytes => bytes) known
    rw [usage, known, getD_some]
    omega

theorem Inv.stored (inv : cache.Inv) (cut : Cut entry cache allocator)
    (positive : 0 < entry.allocatedBytes)
    (pinnedRoom : entry.pinned = true →
      saturatingAdd cache.pinnedBytes entry.allocatedBytes ≤ cache.pinnedMaxBytes)
    (tenantRoom : entry.pinned = false →
      saturatingAdd (cache.usage entry.ownerTenant) entry.allocatedBytes ≤
        max (cache.reservation entry.ownerTenant) cache.defaultTenantMaxBytes) :
    (cache.stored key entry allocator).Inv where
  allocator := cut.inv
  placed key' entry' found := by
    rcases lookup_insert_iff.mp found with ⟨_, rfl⟩ | ⟨_, known⟩
    · rcases cut.run with ⟨start, blocks, _, same, offset, bytes⟩
      refine ⟨start, blocks, ?_, ?_, ?_⟩
      · change allocator.allocated.lookup start = _
        rw [same, lookup_insert]
      · rw [offset]
        exact congrArg _ cut.blockBytes.symm
      · rw [bytes]
        exact congrArg _ cut.blockBytes.symm
    · rcases inv.placed key' entry' known with ⟨start, blocks, allocated, offset, bytes⟩
      refine ⟨start, blocks, (cut.allocated allocated).1, ?_, ?_⟩
      · rw [offset]
        exact congrArg _ cut.blockBytes.symm
      · rw [bytes]
        exact congrArg _ cut.blockBytes.symm
  apart key₁ entry₁ key₂ entry₂ found₁ found₂ same := by
    have beside : ∀ key' entry', cache.entries.lookup key' = some entry' →
        entry.offset ≠ entry'.offset := by
      intro key' entry' known
      rcases inv.placed key' entry' known with ⟨start, blocks, allocated, offset, _⟩
      rw [offset]
      exact (cut.allocated allocated).2
    rcases lookup_insert_iff.mp found₁ with ⟨here₁, rfl⟩ | ⟨_, known₁⟩
    · rcases lookup_insert_iff.mp found₂ with ⟨here₂, _⟩ | ⟨_, known₂⟩
      · exact here₁.trans here₂.symm
      · exact absurd same (beside key₂ entry₂ known₂)
    · rcases lookup_insert_iff.mp found₂ with ⟨_, rfl⟩ | ⟨_, known₂⟩
      · exact absurd same.symm (beside key₁ entry₁ known₁)
      · exact inv.apart key₁ entry₁ key₂ entry₂ known₁ known₂ same
  owned tenant := by
    rw [usage_stored]
    exact Nat.le_trans (total_stored_le _) (Nat.add_le_add_left (inv.owned tenant) _)
  positive tenant bytes known := by
    rcases lookup_insert_iff.mp known with ⟨_, rfl⟩ | ⟨_, old⟩
    · exact Nat.add_pos_right _ positive
    · exact inv.positive tenant bytes old
  accounted := by
    rw [total_tenants_stored, inv.accounted]
    exact cut.allocatedBytes.symm
  pinned := by
    rw [pinnedBytes_stored]
    exact Nat.le_trans (total_stored_le _) (Nat.add_le_add_left inv.pinned _)
  pinnedMax := by
    rw [pinnedBytes_stored]
    change _ ≤ cache.pinnedMaxBytes
    split
    next pinned =>
      have room := pinnedRoom pinned
      have limit := inv.pinnedLimit
      unfold saturatingAdd at room
      omega
    next => exact Nat.zero_add _ ▸ inv.pinnedMax
  pinnedLimit := inv.pinnedLimit
  quota tenant := by
    apply Nat.le_trans (total_stored_le _)
    change _ + cache.unpinnedBytes tenant ≤ max (cache.reservation tenant)
      cache.defaultTenantMaxBytes
    split
    next owner =>
      rcases owner with ⟨rfl, unpinned⟩
      have room := tenantRoom unpinned
      have fits := cut.usage_le inv entry.ownerTenant
      have owned := Nat.le_trans (cache.unpinnedBytes_le _) (inv.owned entry.ownerTenant)
      unfold saturatingAdd at room
      omega
    next => exact (Nat.zero_add _).symm ▸ inv.quota tenant

theorem Exact.stored (exact_ : cache.Exact) (cut : Cut entry cache allocator)
    (absent : key ∉ cache.entries) : (cache.stored key entry allocator).Exact where
  owned tenant := by
    rw [usage_stored, ← exact_.owned tenant]
    exact total_insert_of_notMem _ absent entry
  pinned := by
    rw [pinnedBytes_stored, ← exact_.pinned]
    exact total_insert_of_notMem _ absent entry
  entries := by
    change _ = allocator.allocatedBytes
    rw [cut.allocatedBytes, ← exact_.entries]
    exact total_insert_of_notMem _ absent entry

end

/-! ## Admission -/

section

variable [Priority ρ] [KeyHash] {cache after : GpuCache ρ}

/-- With a free run that is long enough, `allocate` succeeds and the entry is stored. -/
theorem place_ok (inv : cache.Inv) (tensor : Tensor) {bytes : Nat}
    (size : cache.allocator.allocationBytes tensor.payloadBytes = some bytes)
    (room : bytes ≤ cache.allocator.largestFree) :
    ∃ offset allocator priority,
      cache.allocator.allocate tensor.payloadBytes = (some (offset, bytes), allocator) ∧
      (place tensor).step cache = (.ok (.admitted offset bytes),
        cache.stored tensor.key (tensor.entry offset bytes priority) allocator) ∧
      Cut (tensor.entry offset bytes priority) cache allocator ∧ 0 < bytes ∧
      tensor.payloadBytes ≤ bytes := by
  rcases PageRunAllocator.allocationBytes_eq_some inv.allocator.blockBytes size with
    ⟨required, positive, rfl, covers⟩
  have spec := PageRunAllocator.tryAllocate_spec inv.allocator positive size
  rw [if_pos room] at spec
  rcases spec with ⟨start, allocator, done, allocatorInv, blockBytes, blockCount, new, same⟩
  have allocated : cache.allocator.allocate tensor.payloadBytes =
      (some (start * cache.allocator.blockBytes, required * cache.allocator.blockBytes),
        allocator) := by
    rw [PageRunAllocator.allocate, done]
  refine ⟨start * cache.allocator.blockBytes, allocator,
    cache.candidate tensor.key (required * cache.allocator.blockBytes), allocated, ?_,
    ⟨allocatorInv, blockBytes, blockCount, start, required, new, same, rfl, rfl⟩,
    Nat.mul_pos positive inv.allocator.blockBytes, covers⟩
  rw [place, step_bind_get, allocated]
  rfl

variable [IterationOrder]

theorem tenantRoom_ok (tensor : Tensor) (bytes : Nat) (inv : cache.Inv) :
    MakesRoom tensor.tenant (fun after => tensor.pinned = false →
      saturatingAdd (after.usage tensor.tenant) bytes ≤ after.tenantMaxBytes tensor.tenant)
      (tenantRoom tensor bytes) cache := by
  rw [tenantRoom, MakesRoom, step_bind_get]
  cases pinned : tensor.pinned with
  | true => exact ⟨none, cache, rfl, .refl _ inv, (fun _ unpinned => by cases unpinned), .inl rfl⟩
  | false =>
    rcases makeTenantRoom_ok tensor bytes inv (Nat.lt_succ_self _) with
      ⟨result, after, done, evicted, room, which⟩
    exact ⟨result, after, done, evicted, fun ended _ => room ended, which⟩

/-- Both loops end, and if they do not give up there is room. -/
theorem makeSpace_ok (tensor : Tensor) (bytes : Nat) (inv : cache.Inv) :
    MakesRoom tensor.tenant (fun after => bytes ≤ after.allocator.largestFree ∧
      (tensor.pinned = false →
        saturatingAdd (after.usage tensor.tenant) bytes ≤ after.tenantMaxBytes tensor.tenant))
      (makeSpace tensor bytes) cache := by
  rcases tenantRoom_ok tensor bytes inv with ⟨early, middle, done, first, room, which⟩
  rw [makeSpace, MakesRoom, step_bind_ok done]
  cases early with
  | some admission =>
    exact ⟨some admission, middle, rfl, first, (fun ended => by cases ended), which⟩
  | none =>
    rcases makeRoom_ok tensor bytes first.inv (Nat.lt_succ_self _) with
      ⟨result, after, done', second, free, which'⟩
    refine ⟨result, after, done', first.trans second,
      fun ended => ⟨free ended, fun unpinned => ?_⟩, which'⟩
    have before := room rfl unpinned
    have less := second.usage tensor.tenant
    unfold tenantMaxBytes at before ⊢
    unfold saturatingAdd at before ⊢
    rw [second.reservation, second.tenantMax]
    omega

/-- What an admission has done. -/
inductive Admits (tensor : Tensor) (cache : GpuCache ρ) : Admission → GpuCache ρ → Prop
  | refused {admission : Admission} {after : GpuCache ρ}
      (which : admission = .rejected ∨ admission = .deferred)
      (reduced : Reduced tensor.tenant cache after) : Admits tensor cache admission after
  | stored {middle : GpuCache ρ} {offset bytes : Nat} {priority : ρ}
      {allocator : PageRunAllocator} (reduced : Reduced tensor.tenant cache middle)
      (cut : Cut (tensor.entry offset bytes priority) middle allocator)
      (covers : tensor.payloadBytes ≤ bytes) :
      Admits tensor cache (.admitted offset bytes)
        (middle.stored tensor.key (tensor.entry offset bytes priority) allocator)

/-- `admit_for_tenant` ends and keeps the invariant. -/
theorem admitForTenant_ok (tensor : Tensor) (inv : cache.Inv) :
    ∃ admission after, (admitForTenant tensor).step cache = (.ok admission, after) ∧
      after.Inv ∧ (cache.Exact → tensor.key ∉ cache.entries → after.Exact) ∧
      Admits tensor cache admission after := by
  have deferred : ∃ admission after,
      (pure .deferred : Fallible String (GpuCache ρ) Admission).step cache =
        (.ok admission, after) ∧ after.Inv ∧
      (cache.Exact → tensor.key ∉ cache.entries → after.Exact) ∧
      Admits tensor cache admission after :=
    ⟨_, cache, rfl, inv, fun exact_ _ => exact_, .refused (.inr rfl) (.refl _ cache)⟩
  rw [admitForTenant, step_bind_get]
  cases size : cache.allocator.allocationBytes tensor.payloadBytes with
  | none => exact deferred
  | some bytes =>
    dsimp only
    split
    next => exact deferred
    next =>
      split
      next => exact deferred
      next pinnedRoom =>
        rcases makeSpace_ok tensor bytes inv with
          ⟨result, middle, done, ⟨reduced, inv', exact'⟩, room, which⟩
        rw [step_bind_ok done]
        cases result with
        | some admission =>
          refine ⟨admission, middle, rfl, inv', fun exact_ _ => exact' exact_, .refused ?_ reduced⟩
          rcases which with none | rejected | deferred
          · cases none
          · exact .inl (some_inj.mp rejected)
          · exact .inr (some_inj.mp deferred)
        | none =>
          have size' : middle.allocator.allocationBytes tensor.payloadBytes = some bytes := by
            rw [PageRunAllocator.allocationBytes, reduced.blockBytes]
            exact size
          rcases place_ok inv' tensor size' (room rfl).1 with
            ⟨offset, allocator, priority, _, placed, cut, positive, covers⟩
          refine ⟨_, _, placed, ?_, ?_, .stored reduced cut covers⟩
          · apply inv'.stored cut positive
            · intro pinned
              rw [reduced.pinnedBytes, reduced.pinnedMax]
              exact Nat.le_of_not_lt fun full => pinnedRoom ⟨pinned, full⟩
            · intro unpinned
              exact (room rfl).2 unpinned
          · intro exact_ absent
            apply (exact' exact_).stored cut
            intro member
            rcases mem_iff_lookup.mp member with ⟨entry, found⟩
            exact absent (mem_iff_lookup.mpr ⟨entry, reduced.entries _ _ found⟩)

end

/-! ## Entries in use -/

section

variable {cache : GpuCache ρ} {key : String} {entry entry' : CacheEntry ρ}

/-- Two entries with the same range, owner and pin. -/
structure SameRange (entry entry' : CacheEntry ρ) : Prop where
  offset : entry'.offset = entry.offset
  allocatedBytes : entry'.allocatedBytes = entry.allocatedBytes
  pinned : entry'.pinned = entry.pinned
  ownerTenant : entry'.ownerTenant = entry.ownerTenant

/-- The cache with one entry replaced. -/
def touched (cache : GpuCache ρ) (key : String) (entry : CacheEntry ρ) : GpuCache ρ :=
  { cache with entries := cache.entries.insert key entry }

theorem total_touched (weight : String → CacheEntry ρ → Nat)
    (found : cache.entries.lookup key = some entry)
    (same : weight key entry' = weight key entry) :
    Table.total weight (cache.touched key entry').entries = Table.total weight cache.entries := by
  rw [touched, total_insert, same]
  exact total_erase weight found

theorem ownedBytes_touched (found : cache.entries.lookup key = some entry)
    (same : SameRange entry entry') (tenant : String) :
    (cache.touched key entry').ownedBytes tenant = cache.ownedBytes tenant := by
  apply total_touched _ found
  rw [same.ownerTenant, same.allocatedBytes]

theorem pinnedEntryBytes_touched (found : cache.entries.lookup key = some entry)
    (same : SameRange entry entry') :
    (cache.touched key entry').pinnedEntryBytes = cache.pinnedEntryBytes := by
  apply total_touched _ found
  rw [same.pinned, same.allocatedBytes]

theorem Inv.touched (inv : cache.Inv) (found : cache.entries.lookup key = some entry)
    (same : SameRange entry entry') : (cache.touched key entry').Inv where
  allocator := inv.allocator
  placed key₁ entry₁ found₁ := by
    rcases lookup_insert_iff.mp found₁ with ⟨_, rfl⟩ | ⟨_, known⟩
    · rcases inv.placed key entry found with ⟨start, blocks, allocated, offset, bytes⟩
      exact ⟨start, blocks, allocated, same.offset.trans offset, same.allocatedBytes.trans bytes⟩
    · exact inv.placed key₁ entry₁ known
  apart key₁ entry₁ key₂ entry₂ found₁ found₂ equal := by
    have old : ∀ key' entry'', (cache.touched key entry').entries.lookup key' = some entry'' →
        ∃ before, cache.entries.lookup key' = some before ∧ before.offset = entry''.offset := by
      intro key' entry'' found'
      rcases lookup_insert_iff.mp found' with ⟨rfl, rfl⟩ | ⟨_, known⟩
      · exact ⟨entry, found, same.offset.symm⟩
      · exact ⟨entry'', known, rfl⟩
    rcases old key₁ entry₁ found₁ with ⟨before₁, known₁, offset₁⟩
    rcases old key₂ entry₂ found₂ with ⟨before₂, known₂, offset₂⟩
    exact inv.apart key₁ before₁ key₂ before₂ known₁ known₂
      (offset₁.trans (equal.trans offset₂.symm))
  owned tenant := by
    rw [ownedBytes_touched found same]
    exact inv.owned tenant
  positive := inv.positive
  accounted := inv.accounted
  pinned := by
    rw [pinnedEntryBytes_touched found same]
    exact inv.pinned
  pinnedMax := inv.pinnedMax
  pinnedLimit := inv.pinnedLimit
  quota tenant := by
    apply Nat.le_trans _ (inv.quota tenant)
    apply le_of_eq
    apply total_touched _ found
    rw [same.ownerTenant, same.pinned, same.allocatedBytes]

theorem Exact.touched (exact_ : cache.Exact) (found : cache.entries.lookup key = some entry)
    (same : SameRange entry entry') : (cache.touched key entry').Exact where
  owned tenant := by
    rw [ownedBytes_touched found same]
    exact exact_.owned tenant
  pinned := by
    rw [pinnedEntryBytes_touched found same]
    exact exact_.pinned
  entries := by
    apply Eq.trans (total_touched _ found same.allocatedBytes)
    exact exact_.entries

end

end VectorChord.Tilemaxsimd.GpuCache
