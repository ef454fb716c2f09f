import VectorChord.Tilemaxsimd.Admission

/-!
# Runs of the GPU cache

The cache as a machine whose events are the calls of its owner.  The ranges of entries
never overlap and no tenant outgrows its limit, in whatever order calls come; the counters
are exact as long as tensors are admitted under keys that have no entry.
-/

namespace VectorChord.Tilemaxsimd.GpuCache

open Collections Transition Fallible

variable {ρ : Type}

/-! ## A new cache -/

section

variable [Priority ρ] {capacity blockBytes tenantMaxPercent pinnedMaxPercent : Nat}
    {tenantReservations : Table String Nat} {cache : GpuCache ρ}

theorem newWithLimits_eq_ok (built : newWithLimits capacity blockBytes tenantMaxPercent
      pinnedMaxPercent tenantReservations = .ok cache) :
    PageRunAllocator.new capacity blockBytes = .ok cache.allocator ∧ cache.entries = ∅ ∧
      cache.tenantAllocated = ∅ ∧ cache.pinnedBytes = 0 ∧
      cache.pinnedMaxBytes = capacity * pinnedMaxPercent % 2 ^ 64 / 100 := by
  unfold newWithLimits at built
  obtain ⟨_, built⟩ := guard_eq_ok.mp built
  cases arena : PageRunAllocator.new capacity blockBytes with
  | error message =>
    rw [arena] at built
    cases built
  | ok allocator =>
    rw [arena] at built
    cases built
    exact ⟨rfl, rfl, rfl, rfl, rfl⟩

theorem newWithLimits_inv (bounded : capacity ≤ usizeMax)
    (built : newWithLimits capacity blockBytes tenantMaxPercent pinnedMaxPercent
      tenantReservations = .ok cache) : cache.Inv ∧ cache.Exact := by
  rcases newWithLimits_eq_ok built with ⟨arena, entries, tenants, pinned, pinnedMax⟩
  rcases PageRunAllocator.new_inv bounded arena with ⟨allocatorInv, _, _, allocated⟩
  have none : ∀ weight, Table.total weight cache.entries = 0 := by
    intro weight
    rw [entries]
    rfl
  have usage : ∀ tenant, cache.usage tenant = 0 := by
    intro tenant
    rw [usage, tenants]
    rfl
  have bytes : cache.allocator.allocatedBytes = 0 := by
    rw [PageRunAllocator.allocatedBytes, allocated]
    rfl
  have absent : ∀ key entry, cache.entries.lookup key ≠ some entry := by
    intro key entry found
    rw [entries] at found
    cases found
  constructor
  · constructor
    case allocator => exact allocatorInv
    case placed => exact fun key entry found => absurd found (absent key entry)
    case apart => exact fun key entry _ _ found => absurd found (absent key entry)
    case owned => exact fun tenant => Nat.le_of_eq ((none _).trans (usage tenant).symm)
    case positive =>
      intro tenant bytes known
      rw [tenants] at known
      cases known
    case accounted =>
      rw [tenants, bytes]
      rfl
    case pinned => exact Nat.le_of_eq ((none _).trans pinned.symm)
    case pinnedMax =>
      rw [pinned]
      exact Nat.zero_le _
    case pinnedLimit =>
      rw [pinnedMax, usizeMax]
      omega
    case quota => exact fun tenant => Nat.le_trans (Nat.le_of_eq (none _)) (Nat.zero_le _)
  · exact ⟨fun tenant => (none _).trans (usage tenant).symm, (none _).trans pinned.symm,
      (none _).trans bytes.symm⟩

end

/-! ## Calls -/

section

variable {cache : GpuCache ρ} {key : String} {entry : CacheEntry ρ}

theorem lookup_filter_ready :
    (cache.entries.lookup key).filter CacheEntry.ready = some entry ↔
      cache.entries.lookup key = some entry ∧ entry.ready = true :=
  Option.filter_eq_some_iff

/-- What the calls that are not admissions make of the cache: nothing that is accounted
changes, an entry is replaced by one with the same range, or an entry goes. -/
inductive Changes (cache : GpuCache ρ) : GpuCache ρ → Prop
  | same : Changes cache cache
  | touched {key : String} {entry entry' : CacheEntry ρ}
      (found : cache.entries.lookup key = some entry) (range : SameRange entry entry') :
      Changes cache (cache.touched key entry')
  | removed {key : String} {entry : CacheEntry ρ} {allocator : PageRunAllocator}
      (found : cache.entries.lookup key = some entry) (inv : allocator.Inv)
      (blockBytes : allocator.blockBytes = cache.allocator.blockBytes)
      (bytes : entry.allocatedBytes + allocator.allocatedBytes = cache.allocator.allocatedBytes)
      (others : ∀ start blocks, cache.allocator.Allocated start blocks →
        entry.offset ≠ start * cache.allocator.blockBytes → allocator.Allocated start blocks) :
      Changes cache (cache.without key entry allocator)
  | counted {after : GpuCache ρ} (changes : Changes cache after) (sketch : TinyLfu)
      (hits misses : Nat) :
      Changes cache { after with sketch := sketch, hits := hits, misses := misses }

theorem Changes.inv {after : GpuCache ρ} (changes : Changes cache after) (inv : cache.Inv) :
    after.Inv ∧ (cache.Exact → after.Exact) := by
  induction changes with
  | same => exact ⟨inv, fun exact_ => exact_⟩
  | touched found range =>
    exact ⟨inv.touched found range, fun exact_ => exact_.touched found range⟩
  | removed found allocatorInv blockBytes bytes others =>
    exact ⟨inv.without found allocatorInv blockBytes bytes others,
      fun exact_ => exact_.without found bytes⟩
  | counted _ sketch hits misses ih =>
    exact ⟨ih.1.counters _ _ _ _ _ _, fun exact_ => (ih.2 exact_).counters _ _ _ _ _ _⟩

theorem get_changes [Priority ρ] [KeyHash] (cache : GpuCache ρ) (key : String) :
    Changes cache (cache.get key).2 := by
  unfold get
  dsimp only
  split
  next => exact Changes.same.counted _ _ _
  next entry ready =>
    have range : SameRange entry { entry with
        references := entry.references + 1
        priority := Priority.rate cache.inflation (cache.sketch.increment key).1
          entry.allocatedBytes } := ⟨rfl, rfl, rfl, rfl⟩
    exact (Changes.touched (lookup_filter_ready.mp ready).1 range).counted _ _ _

theorem acquireExisting_changes (cache : GpuCache ρ) (key : String) :
    Changes cache (cache.acquireExisting key).2 := by
  unfold acquireExisting
  split
  next => exact .same
  next entry ready => exact .touched (lookup_filter_ready.mp ready).1 ⟨rfl, rfl, rfl, rfl⟩

theorem release_changes (cache : GpuCache ρ) (key : String) :
    Changes cache ((release key).step cache).2 := by
  rw [release, step_bind_get]
  cases found : cache.entries.lookup key with
  | none => exact .same
  | some entry =>
    dsimp only
    split
    next => exact .same
    next => exact .touched found ⟨rfl, rfl, rfl, rfl⟩

theorem markReady_changes (cache : GpuCache ρ) (key : String) :
    Changes cache ((markReady key).step cache).2 := by
  rw [markReady, step_bind_get]
  cases found : cache.entries.lookup key with
  | none => exact .same
  | some entry => exact .touched found ⟨rfl, rfl, rfl, rfl⟩

theorem remove_changes (inv : cache.Inv) (key : String) :
    Changes cache ((remove key).step cache).2 := by
  cases found : cache.entries.lookup key with
  | none =>
    have failed : (removeEntry key).step cache =
        (.error "GPU cache entry disappeared", cache) := by
      rw [removeEntry, step_bind_get, found]
      rfl
    rw [remove, step_bind_error failed]
    exact .same
  | some entry =>
    rcases removeEntry_ok inv found with
      ⟨allocator, done, allocatorInv, blockBytes, _, bytes, others⟩
    rw [remove, step_bind_ok done]
    exact .removed found allocatorInv blockBytes bytes others

end

/-! ## Runs -/

/-- A call of the cache. -/
inductive Call where
  | admitForTenant (tensor : Tensor)
  | recordAccessMiss (key : String)
  | get (key : String)
  | acquireExisting (key : String)
  | release (key : String)
  | markReady (key : String)
  | remove (key : String)
  deriving DecidableEq, Repr

/-- What a call returns. -/
inductive Answer (ρ : Type) where
  | admission (result : Except String Admission)
  | entry (result : Option (CacheEntry ρ))
  | done (result : Except String Unit)

section

variable [Priority ρ] [KeyHash] [IterationOrder]

/-- The cache and the calls of its owner. -/
def calls : Machine (GpuCache ρ) Call (Answer ρ) where
  step self
    | .admitForTenant tensor =>
      (((admitForTenant tensor).step self).2, .admission ((admitForTenant tensor).step self).1)
    | .recordAccessMiss key => (self.recordAccessMiss key, .done (.ok ()))
    | .get key => ((self.get key).2, .entry (self.get key).1)
    | .acquireExisting key => ((self.acquireExisting key).2, .entry (self.acquireExisting key).1)
    | .release key => (((release key).step self).2, .done ((release key).step self).1)
    | .markReady key => (((markReady key).step self).2, .done ((markReady key).step self).1)
    | .remove key => (((remove key).step self).2, .done ((remove key).step self).1)

/-- A tensor is only admitted under a key that has no entry. -/
def NewKey (cache : GpuCache ρ) : Call → Prop
  | .admitForTenant tensor => tensor.key ∉ cache.entries
  | _ => True

instance (cache : GpuCache ρ) : (call : Call) → Decidable (NewKey cache call)
  | .admitForTenant tensor => inferInstanceAs (Decidable (tensor.key ∉ cache.entries))
  | .recordAccessMiss _ | .get _ | .acquireExisting _ | .release _ | .markReady _ | .remove _ =>
    isTrue trivial

variable {cache : GpuCache ρ}

/-- Every call keeps the invariant, and those that admit under a new key keep the
counters exact. -/
theorem calls_inv (inv : cache.Inv) (call : Call) :
    (calls.step cache call).1.Inv ∧
      (cache.Exact → NewKey cache call → (calls.step cache call).1.Exact) := by
  have other : ∀ {after}, Changes cache after →
      after.Inv ∧ (cache.Exact → NewKey cache call → after.Exact) := by
    intro after changes
    exact ⟨(changes.inv inv).1, fun exact_ _ => (changes.inv inv).2 exact_⟩
  cases call with
  | admitForTenant tensor =>
    rcases admitForTenant_ok tensor inv with ⟨admission, after, done, inv', exact', _⟩
    change ((admitForTenant tensor).step cache).2.Inv ∧ (cache.Exact →
      tensor.key ∉ cache.entries → ((admitForTenant tensor).step cache).2.Exact)
    rw [done]
    exact ⟨inv', exact'⟩
  | recordAccessMiss key => exact other (Changes.same.counted _ _ _)
  | get key => exact other (get_changes cache key)
  | acquireExisting key => exact other (acquireExisting_changes cache key)
  | release key => exact other (release_changes cache key)
  | markReady key => exact other (markReady_changes cache key)
  | remove key => exact other (remove_changes inv key)

end

section

variable {cache : GpuCache ρ} {entry : CacheEntry ρ} {tensor : Tensor} {admission : Admission}
  {after : GpuCache ρ}

/-- The ranges of two entries do not overlap. -/
theorem Inv.disjoint (inv : cache.Inv) {key key' : String} {entry' : CacheEntry ρ}
    (found : cache.entries.lookup key = some entry)
    (found' : cache.entries.lookup key' = some entry') (different : key ≠ key') :
    entry.offset + entry.allocatedBytes ≤ entry'.offset ∨
      entry'.offset + entry'.allocatedBytes ≤ entry.offset := by
  have ahead : ∀ {start blocks start' blocks'}, cache.allocator.Allocated start blocks →
      cache.allocator.Allocated start' blocks' → start < start' →
      start * cache.allocator.blockBytes + blocks * cache.allocator.blockBytes ≤
        start' * cache.allocator.blockBytes := by
    intro start blocks start' blocks' allocated allocated' before
    rw [← Nat.add_mul]
    exact Nat.mul_le_mul_right _
      (inv.allocator.tiling.apart _ _ _ _ (.inr allocated) (.inr allocated') before)
  rcases inv.placed key entry found with ⟨start, blocks, allocated, offset, bytes⟩
  rcases inv.placed key' entry' found' with ⟨start', blocks', allocated', offset', bytes'⟩
  rw [offset, bytes, offset', bytes']
  rcases Nat.lt_trichotomy start start' with before | same | behind
  · exact .inl (ahead allocated allocated' before)
  · apply absurd _ different
    apply inv.apart key entry key' entry' found found'
    rw [offset, offset', same]
  · exact .inr (ahead allocated' allocated behind)

/-- The counters of tenants are exact, and there is none for a tenant without entries. -/
theorem Exact.lookup_tenant (exact_ : cache.Exact) (inv : cache.Inv) (tenant : String) :
    cache.tenantAllocated.lookup tenant =
      if cache.ownedBytes tenant = 0 then none else some (cache.ownedBytes tenant) := by
  have owned := exact_.owned tenant
  unfold usage at owned
  rw [owned]
  cases known : cache.tenantAllocated.lookup tenant with
  | none => rfl
  | some bytes =>
    have positive := inv.positive tenant bytes known
    rw [Option.getD_some, if_neg (ne_of_gt positive)]

theorem Inv.inside (inv : cache.Inv) {key : String}
    (found : cache.entries.lookup key = some entry) :
    entry.offset + entry.allocatedBytes ≤ cache.allocator.capacity := by
  rcases inv.placed key entry found with ⟨start, blocks, allocated, offset, bytes⟩
  rw [offset, bytes, ← Nat.add_mul]
  exact Nat.mul_le_mul_right _ (inv.allocator.tiling.inside start blocks (.inr allocated))

/-- An admission under a new key leaves the entries that are pinned or in use. -/
theorem Admits.kept (admits : Admits tensor cache admission after)
    (absent : tensor.key ∉ cache.entries) {key : String}
    (found : cache.entries.lookup key = some entry)
    (used : entry.references ≠ 0 ∨ entry.pinned = true) :
    after.entries.lookup key = some entry := by
  cases admits with
  | refused _ reduced => exact reduced.kept key entry found used
  | stored reduced =>
    apply Table.lookup_insert_iff.mpr
    right
    constructor
    · intro same
      rw [← same] at absent
      exact absent (Table.mem_iff_lookup.mpr ⟨entry, found⟩)
    · exact reduced.kept key entry found used

/-- An admission leaves the other tenants what is reserved for them. -/
theorem Admits.reserved (admits : Admits tensor cache admission after) {other : String}
    (different : other ≠ tensor.tenant) :
    min (cache.usage other) (cache.reservation other) ≤ after.usage other := by
  cases admits with
  | refused _ reduced => exact reduced.reserved other different
  | stored reduced =>
    apply Nat.le_trans (reduced.reserved other different)
    rw [usage_stored]
    exact Nat.le_add_left _ _

end

section

variable [Priority ρ] [KeyHash] [IterationOrder]
    {capacity blockBytes tenantMaxPercent pinnedMaxPercent : Nat}
    {tenantReservations : Table String Nat} {cache reached : GpuCache ρ} {events : List Call}

/-- In every run that admits tensors under new keys, ranges do not overlap, all counters
are exact, admissions end without touching what is pinned or in use, and the allocation
behind the loops succeeds. -/
theorem accounting_exact (bounded : capacity ≤ usizeMax)
    (built : newWithLimits capacity blockBytes tenantMaxPercent pinnedMaxPercent
      tenantReservations = .ok cache)
    (new : calls.Along NewKey cache events) (run : calls.run cache events = reached) :
    (∀ key entry, reached.entries.lookup key = some entry →
      entry.offset + entry.allocatedBytes ≤ reached.allocator.capacity) ∧
    (∀ key entry key' entry', reached.entries.lookup key = some entry →
      reached.entries.lookup key' = some entry' → key ≠ key' →
      entry.offset + entry.allocatedBytes ≤ entry'.offset ∨
        entry'.offset + entry'.allocatedBytes ≤ entry.offset) ∧
    reached.entryBytes = reached.allocator.allocatedBytes ∧
    (∀ tenant, reached.tenantAllocated.lookup tenant =
      if reached.ownedBytes tenant = 0 then none else some (reached.ownedBytes tenant)) ∧
    reached.pinnedBytes = reached.pinnedEntryBytes ∧
    reached.pinnedBytes ≤ reached.pinnedMaxBytes ∧
    ∀ tensor, tensor.key ∉ reached.entries →
      (∃ admission after, (admitForTenant tensor).step reached = (.ok admission, after) ∧
        ∀ key entry, reached.entries.lookup key = some entry →
          entry.references ≠ 0 ∨ entry.pinned = true → after.entries.lookup key = some entry) ∧
      ∀ bytes, reached.allocator.allocationBytes tensor.payloadBytes = some bytes →
        ∃ result middle, (makeSpace tensor bytes).step reached = (.ok result, middle) ∧
          (result = none →
            ∃ offset, (middle.allocator.allocate tensor.payloadBytes).1 =
              some (offset, bytes)) := by
  have step : ∀ (s : GpuCache ρ) call, s.Inv ∧ s.Exact → NewKey s call →
      (calls.step s call).1.Inv ∧ (calls.step s call).1.Exact := by
    intro s call holds newKey
    exact ⟨(calls_inv holds.1 call).1, (calls_inv holds.1 call).2 holds.2 newKey⟩
  have holds := Machine.run_invariant_of_along step (newWithLimits_inv bounded built) new
  rw [run] at holds
  rcases holds with ⟨inv, exact_⟩
  refine ⟨fun _ _ => inv.inside, fun _ _ _ _ => inv.disjoint, exact_.entries,
    exact_.lookup_tenant inv, exact_.pinned.symm, inv.pinnedMax, ?_⟩
  intro tensor absent
  constructor
  · rcases admitForTenant_ok tensor inv with ⟨admission, after, done, _, _, admits⟩
    exact ⟨admission, after, done, fun _ _ => admits.kept absent⟩
  · intro bytes size
    rcases makeSpace_ok tensor bytes inv with ⟨result, middle, done, ⟨reduced, inv', _⟩, room, _⟩
    refine ⟨result, middle, done, fun ended => ?_⟩
    have size' : middle.allocator.allocationBytes tensor.payloadBytes = some bytes := by
      rw [PageRunAllocator.allocationBytes, reduced.blockBytes]
      exact size
    rcases place_ok inv' tensor size' (room ended).1 with ⟨offset, _, _, allocated, _⟩
    exact ⟨offset, by rw [allocated]⟩

/-- Priorities in whole numbers, for evaluation. -/
@[reducible] def wholePriority : Priority Nat where
  zero := 0
  rate inflation frequency bytes := inflation + frequency / bytes
  max := max
  le left right := left ≤ right
  totalCmp := compare

/-- Two tensors in an arena of four blocks. -/
def twoTensors : List Call :=
  [.admitForTenant ⟨"red", "a", 300, 3, 50, 1, false, false⟩, .markReady "a", .release "a",
    .admitForTenant ⟨"blue", "b", 700, 7, 50, 1, true, false⟩]

omit [KeyHash] [IterationOrder] in
theorem accounting_exact_twoTensors :
    let _ := wholePriority
    let _ : KeyHash := ⟨fun _ _ => 0⟩
    let _ := IterationOrder.insertion
    ∃ cache : GpuCache Nat, newWithLimits 1024 256 100 100 ∅ = .ok cache ∧
      (calls.run cache twoTensors).entryBytes = 768 ∧
      (calls.run cache twoTensors).entryBytes =
        (calls.run cache twoTensors).allocator.allocatedBytes := by
  intro _ _ _
  refine ⟨_, rfl, by decide +kernel, ?_⟩
  exact (@accounting_exact Nat _ _ _ 1024 256 100 100 ∅ _ _ twoTensors (by decide) rfl
    (by decide +kernel) rfl).2.2.1

/-- In every run, an admission takes from no other tenant what is reserved for it, and the
entries of a tenant that are not pinned stay within its limit. -/
theorem tenants_isolated (bounded : capacity ≤ usizeMax)
    (built : newWithLimits capacity blockBytes tenantMaxPercent pinnedMaxPercent
      tenantReservations = .ok cache) (run : calls.run cache events = reached) :
    (∀ tensor other, other ≠ tensor.tenant →
      min (reached.usage other) (reached.reservation other) ≤
        ((admitForTenant tensor).step reached).2.usage other) ∧
    ∀ tenant, reached.unpinnedBytes tenant ≤
      max (reached.reservation tenant) reached.defaultTenantMaxBytes := by
  have step : ∀ (s : GpuCache ρ) call, s.Inv → (calls.step s call).1.Inv :=
    fun _ call inv => (calls_inv inv call).1
  have inv := Machine.run_invariant step (newWithLimits_inv bounded built).1 events
  rw [run] at inv
  constructor
  · intro tensor other different
    rcases admitForTenant_ok tensor inv with ⟨admission, after, done, _, _, admits⟩
    rw [done]
    exact admits.reserved different
  · exact inv.quota

omit [KeyHash] [IterationOrder] in
theorem tenants_isolated_twoTensors :
    let _ := wholePriority
    let _ : KeyHash := ⟨fun _ _ => 0⟩
    let _ := IterationOrder.insertion
    ∃ cache : GpuCache Nat,
      newWithLimits 1024 256 50 100 ((∅ : Table String Nat).insert "red" 512) = .ok cache ∧
      (calls.run cache twoTensors).unpinnedBytes "red" ≤
        max ((calls.run cache twoTensors).reservation "red")
          (calls.run cache twoTensors).defaultTenantMaxBytes := by
  intro _ _ _
  refine ⟨_, rfl, ?_⟩
  exact (@tenants_isolated Nat _ _ _ 1024 256 50 100 ((∅ : Table String Nat).insert "red" 512) _ _
    twoTensors (by decide) rfl rfl).2 "red"

end

end VectorChord.Tilemaxsimd.GpuCache
