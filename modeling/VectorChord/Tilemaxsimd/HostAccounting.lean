import VectorChord.Tilemaxsimd.Store

/-!
# Accounting of the host cache

The totals of the host cache are those of its entries, in every run of `get`, `put` and
`remove`, and stay within the limits of the cache and of each tenant.  Both loops of `put`
evict an entry in each iteration, so they keep whatever evictions keep, and they end.
A tenant is listed with no bytes only if it owns an empty payload.  A payload that is larger
than the cache is turned away before the old copy under its key is removed.
-/

namespace VectorChord.Tilemaxsimd.Shards

open Collections Transition Table AList

/-- Priorities in whole numbers, for evaluation. -/
@[reducible] def wholeHostPriority : HostPriority Nat where
  zero := 0
  rate inflation frequency bytes := inflation + frequency / bytes
  max := max
  le left right := left ≤ right
  totalCmp := compare
  lt left right := left < right

namespace HostCache

variable {ρ : Type} {cache : HostCache ρ} {key : String} {entry : HostEntry ρ}
  {invariant : HostCache ρ → Prop} {fuel : Nat} {after : HostCache ρ}

/-! ## Loops -/

theorem least_eq_some [Priority ρ] [IterationOrder] {test : HostEntry ρ → Bool}
    (found : cache.least test = some (key, entry)) :
    cache.entries.lookup key = some entry ∧ test entry = true := by
  rcases Option.map_eq_some_iff.mp found with ⟨chosen, best, same⟩
  cases same
  have member := List.mem_filter.mp (mem_of_minBy best)
  have inside := (IterationOrder.perm cache.entries.entries).mem_iff.mp member.1
  exact ⟨mem_lookup_iff.mpr inside, member.2⟩

/-- What is kept by evicting an entry and by turning a payload away. -/
structure Stable [Priority ρ] (invariant : HostCache ρ → Prop) : Prop where
  evict : ∀ cache key victim, cache.entries.lookup key = some victim → invariant cache →
    invariant (cache.evict key victim)
  reject : ∀ cache, invariant cache → invariant cache.reject

theorem remove_of_lookup (found : cache.entries.lookup key = some entry) : cache.remove key =
      { cache with
        entries := cache.entries.erase key
        currentBytes := cache.currentBytes - entry.payload.length
        tenantBytes :=
          if cache.usage entry.ownerTenant - entry.payload.length = 0 then
            cache.tenantBytes.erase entry.ownerTenant
          else cache.tenantBytes.insert entry.ownerTenant
            (cache.usage entry.ownerTenant - entry.payload.length) } := by
  rw [HostCache.remove, found]

theorem remove_of_notMem (absent : cache.entries.lookup key = none) : cache.remove key = cache := by
  rw [HostCache.remove, absent]

theorem lookup_remove_self (cache : HostCache ρ) (key : String) :
    (cache.remove key).entries.lookup key = none := by
  cases found : cache.entries.lookup key with
  | none =>
    rw [remove_of_notMem found]
    exact found
  | some entry =>
    rw [remove_of_lookup found]
    exact lookup_erase _ _

/-- Every eviction leaves an entry less. -/
theorem length_evict [Priority ρ] {victim : HostEntry ρ}
    (found : cache.entries.lookup key = some victim) :
    (cache.evict key victim).entries.keys.length + 1 = cache.entries.keys.length := by
  have less : (cache.evict key victim).entries = cache.entries.erase key :=
    congrArg entries (remove_of_lookup found)
  rw [less]
  exact length_erase (mem_iff_lookup.mpr ⟨victim, found⟩)

section

variable [Priority ρ] [IterationOrder] {room : HostCache ρ → Prop} [DecidablePred room]
  {test : HostEntry ρ → Bool} {refuses : HostCache ρ → HostEntry ρ → Bool}
  {loop : Nat → HostCache ρ → Bool × HostCache ρ}

/-- A loop that evicts until there is room, or turns a payload away. -/
structure Loops (room : HostCache ρ → Prop) [DecidablePred room] (test : HostEntry ρ → Bool)
    (refuses : HostCache ρ → HostEntry ρ → Bool) (loop : Nat → HostCache ρ → Bool × HostCache ρ) :
    Prop where
  zero : ∀ self, loop 0 self = (false, self)
  succ : ∀ fuel self, loop (fuel + 1) self = if room self then (true, self) else
    match self.least test with
    | none => (false, self)
    | some (key, victim) => if refuses self victim then (false, self.reject)
      else loop fuel (self.evict key victim)

namespace Loops

variable (loops : Loops room test refuses loop)

include loops

theorem keeps (stable : Stable invariant) (fuel : Nat) (holds : invariant cache) :
    invariant (loop fuel cache).2 := by
  induction fuel generalizing cache with
  | zero => exact (loops.zero cache).symm ▸ holds
  | succ fuel ih =>
    rw [loops.succ]
    split
    next => exact holds
    next =>
      split
      next => exact holds
      next key victim chosen =>
        split
        next => exact stable.reject cache holds
        next => exact ih (stable.evict cache key victim (least_eq_some chosen).1 holds)

/-- Where the loop does not give up there is room. -/
theorem room_of_true (done : loop fuel cache = (true, after)) : room after := by
  induction fuel generalizing cache with
  | zero =>
    rw [loops.zero] at done
    cases done
  | succ fuel ih =>
    rw [loops.succ] at done
    split at done
    next room =>
      cases done
      exact room
    next =>
      split at done
      next => cases done
      next key victim _ =>
        split at done
        next => cases done
        next => exact ih done

/-- The loop ends before the entries do: more iterations change nothing. -/
theorem ends (enough : cache.entries.keys.length < fuel) (more : Nat) :
    loop (fuel + more) cache = loop fuel cache := by
  induction fuel generalizing cache with
  | zero => exact absurd enough (Nat.not_lt_zero _)
  | succ fuel ih =>
    rw [Nat.succ_add, loops.succ, loops.succ]
    cases chosen : cache.least test with
    | none => rfl
    | some victim =>
      have fewer := length_evict (least_eq_some chosen).1
      dsimp only
      rw [ih (by omega)]

end Loops

theorem loops_makeTenantRoom (tenant : String) (frequency bytes : Nat) :
    Loops (fun self => saturatingAdd (self.usage tenant) bytes ≤ self.defaultTenantMaxBytes)
      (fun entry => entry.ownerTenant == tenant)
      (fun self victim => Priority.le (Priority.rate self.inflation frequency bytes)
        victim.priority)
      (fun fuel (cache : HostCache ρ) => cache.makeTenantRoom tenant frequency bytes fuel) :=
  ⟨fun _ => rfl, fun _ _ => rfl⟩

end

theorem loops_makeRoom [HostPriority ρ] [IterationOrder] (frequency bytes : Nat) :
    Loops (fun self => self.currentBytes + bytes ≤ self.maximumBytes) (fun _ => true)
      (fun self victim =>
        HostPriority.lt (Priority.rate self.inflation frequency bytes) victim.priority)
      (fun fuel (cache : HostCache ρ) => cache.makeRoom frequency bytes fuel) :=
  ⟨fun _ => rfl, fun _ _ => rfl⟩

/-! ## Totals -/

/-- The bytes of all payloads. -/
def entryBytes (cache : HostCache ρ) : Nat :=
  Table.total (fun _ entry => entry.payload.length) cache.entries

/-- The bytes of an entry that count for a tenant. -/
def share (tenant : String) (entry : HostEntry ρ) : Nat :=
  if entry.ownerTenant = tenant then entry.payload.length else 0

/-- The bytes of all payloads of a tenant. -/
def ownedBytes (cache : HostCache ρ) (tenant : String) : Nat :=
  Table.total (fun _ entry => share tenant entry) cache.entries

/-- The totals of the cache are those of its entries and within the limits. -/
structure Accounts (cache : HostCache ρ) : Prop where
  current : cache.currentBytes = cache.entryBytes
  inMaximum : cache.currentBytes ≤ cache.maximumBytes
  owned : ∀ tenant, cache.usage tenant = cache.ownedBytes tenant
  inShare : ∀ tenant, cache.usage tenant ≤ cache.defaultTenantMaxBytes
  /-- A tenant without bytes is listed only if it owns an empty payload. -/
  listed : ∀ tenant, cache.tenantBytes.lookup tenant = some 0 → ∃ key entry,
    cache.entries.lookup key = some entry ∧ entry.ownerTenant = tenant ∧ entry.payload = []
  off : cache.maximumBytes = 0 → ∀ key, cache.entries.lookup key = none
  /-- The sum that is compared with the limit of a tenant saturates above it. -/
  narrow : cache.defaultTenantMaxBytes < usizeMax

theorem accounts_new [Priority ρ] (maximumBytes tenantMaxPercent : Nat) :
    (new maximumBytes tenantMaxPercent : HostCache ρ).Accounts where
  current := rfl
  inMaximum := Nat.zero_le _
  owned _ := rfl
  inShare _ := Nat.zero_le _
  listed _ none := by cases none
  off _ _ := rfl
  narrow := by
    change maximumBytes * tenantMaxPercent % 2 ^ 64 / 100 < 2 ^ 64 - 1
    omega

section

variable (found : cache.entries.lookup key = some entry)

include found

theorem lookup_tenantBytes_remove (tenant : String) :
    (cache.remove key).tenantBytes.lookup tenant =
      if tenant = entry.ownerTenant then
        if cache.usage tenant - entry.payload.length = 0 then none
        else some (cache.usage tenant - entry.payload.length)
      else cache.tenantBytes.lookup tenant := by
  rw [remove_of_lookup found]
  by_cases same : tenant = entry.ownerTenant
  · rw [if_pos same, same]
    split
    next => exact lookup_erase _ _
    next => exact lookup_insert _
  · rw [if_neg same]
    split
    next => exact lookup_erase_ne same
    next => exact lookup_insert_ne same

theorem usage_remove (tenant : String) :
    (cache.remove key).usage tenant = cache.usage tenant - share tenant entry := by
  rw [usage, lookup_tenantBytes_remove found, share]
  by_cases same : tenant = entry.ownerTenant
  · rw [if_pos same, if_pos same.symm]
    split
    next none => exact none.symm
    next => rfl
  · rw [if_neg same, if_neg (Ne.symm same)]
    rfl

theorem ownedBytes_remove (tenant : String) :
    (cache.remove key).ownedBytes tenant = cache.ownedBytes tenant - share tenant entry := by
  have whole := total_erase (fun _ entry => share tenant entry) found
  rw [remove_of_lookup found, ownedBytes, ownedBytes, ← whole]
  exact (Nat.add_sub_cancel_left _ _).symm

end

section

variable (accounts : cache.Accounts)

include accounts

theorem Accounts.remove (key : String) : (cache.remove key).Accounts := by
  cases found : cache.entries.lookup key with
  | none =>
    rw [remove_of_notMem found]
    exact accounts
  | some entry =>
    have removed := remove_of_lookup found
    constructor
    · have whole := total_erase (fun _ entry => entry.payload.length) found
      have current := accounts.current
      rw [removed, entryBytes]
      rw [entryBytes] at current
      dsimp only at whole ⊢
      omega
    · rw [removed]
      exact le_trans (Nat.sub_le _ _) accounts.inMaximum
    · intro tenant
      rw [usage_remove found, ownedBytes_remove found, accounts.owned]
    · intro tenant
      have same : (cache.remove key).defaultTenantMaxBytes = cache.defaultTenantMaxBytes := by
        rw [removed]
      rw [usage_remove found, same]
      exact le_trans (Nat.sub_le _ _) (accounts.inShare tenant)
    · intro tenant none
      rw [lookup_tenantBytes_remove found] at none
      split at none
      next =>
        split at none
        next => cases none
        next some_ => exact absurd (Option.some_inj.mp none) some_
      next other =>
        obtain ⟨key', entry', found', owner, empty⟩ := accounts.listed tenant none
        refine ⟨key', entry', ?_, owner, empty⟩
        rw [removed]
        apply lookup_erase_iff.mpr
        refine ⟨?_, found'⟩
        rintro rfl
        rw [found] at found'
        cases found'
        exact other owner.symm
    · intro off key'
      rw [removed] at off
      rw [accounts.off off key] at found
      cases found
    · rw [removed]
      exact accounts.narrow

/-- Accounts only depend on the entries, the totals and the limits. -/
theorem Accounts.counters (sketch : TinyLfu) (inflation : ρ)
    (hits misses evictions admissionRejections : Nat) :
    { cache with
      sketch := sketch, inflation := inflation, hits := hits, misses := misses
      evictions := evictions, admissionRejections := admissionRejections }.Accounts :=
  ⟨accounts.current, accounts.inMaximum, accounts.owned, accounts.inShare, accounts.listed,
    accounts.off, accounts.narrow⟩

theorem Accounts.get [Priority ρ] [KeyHash] (key : String) :
    (cache.get key).2.Accounts := by
  unfold HostCache.get
  dsimp only
  cases found : cache.entries.lookup key with
  | none => exact accounts.counters _ _ _ _ _ _
  | some entry =>
    have kept : ∀ weight : HostEntry ρ → Nat, ∀ priority : ρ,
        weight { entry with priority := priority } = weight entry →
        total (fun _ entry => weight entry)
          (cache.entries.insert key { entry with priority := priority }) =
            total (fun _ entry => weight entry) cache.entries := by
      intro weight priority same
      rw [total_insert, same, total_erase (fun _ entry => weight entry) found]
    constructor
    · exact accounts.current.trans (kept (fun entry => entry.payload.length) _ rfl).symm
    · exact accounts.inMaximum
    · exact fun tenant => (accounts.owned tenant).trans (kept (share tenant) _ rfl).symm
    · exact accounts.inShare
    · intro tenant none
      obtain ⟨key', entry', found', owner, empty⟩ := accounts.listed tenant none
      by_cases same : key' = key
      · rw [same, found] at found'
        cases found'
        exact ⟨key, _, lookup_insert _, owner, empty⟩
      · exact ⟨key', entry', (lookup_insert_ne same).trans found', owner, empty⟩
    · intro off key'
      rw [accounts.off off key] at found
      cases found
    · exact accounts.narrow

/-- A payload is stored where there is room for it. -/
theorem Accounts.store [Priority ρ] {tenant : String}
    {payload : List UInt8} (absent : cache.entries.lookup key = none) (on : cache.maximumBytes ≠ 0)
    (room : cache.currentBytes + payload.length ≤ cache.maximumBytes)
    (tenantRoom : cache.usage tenant + payload.length ≤ cache.defaultTenantMaxBytes)
    (frequency : Nat) : (cache.store tenant key frequency payload).Accounts := by
  have new := lookup_eq_none.mp absent
  have usage : ∀ other, (cache.store tenant key frequency payload).usage other =
      if other = tenant then cache.usage tenant + payload.length else cache.usage other := by
    intro other
    by_cases same : other = tenant
    · rw [if_pos same, same, HostCache.usage, HostCache.store, lookup_insert]
      rfl
    · rw [if_neg same, HostCache.usage, HostCache.store, lookup_insert_ne same]
      rfl
  constructor
  · rw [entryBytes, HostCache.store, total_insert_of_notMem _ new]
    rw [accounts.current, add_comm]
    rfl
  · exact room
  · intro other
    rw [usage, ownedBytes, HostCache.store, total_insert_of_notMem _ new]
    by_cases same : other = tenant
    · have owned := accounts.owned tenant
      rw [if_pos same, owned, same, share, if_pos rfl, add_comm]
      rfl
    · rw [if_neg same, accounts.owned, share, if_neg (Ne.symm same), zero_add]
      rfl
  · intro other
    rw [usage]
    split
    next => exact tenantRoom
    next => exact accounts.inShare other
  · intro other none
    rcases lookup_insert_iff.mp none with ⟨same, zero⟩ | ⟨_, none⟩
    · refine ⟨key, _, lookup_insert _, same.symm, ?_⟩
      exact List.length_eq_zero_iff.mp (Nat.eq_zero_of_add_eq_zero_left zero.symm)
    · obtain ⟨key', entry', found', owner, empty⟩ := accounts.listed other none
      have different : key' ≠ key := by
        rintro rfl
        rw [absent] at found'
        cases found'
      exact ⟨key', entry', (lookup_insert_ne different).trans found', owner, empty⟩
  · exact fun off => absurd off on
  · exact accounts.narrow

end

/-! ## `put` -/

/-- What the loops of `put` keep: the key stays absent and the tenant does not grow. -/
structure Making (maximum tenantMaximum : Nat) (tenant key : String) (used : Nat)
    (cache : HostCache ρ) : Prop where
  accounts : cache.Accounts
  absent : cache.entries.lookup key = none
  maximum : cache.maximumBytes = maximum
  tenantMaximum : cache.defaultTenantMaxBytes = tenantMaximum
  used : cache.usage tenant ≤ used

theorem stable_making [Priority ρ] (maximum tenantMaximum : Nat) (tenant key : String)
    (used : Nat) :
    Stable (Making (ρ := ρ) maximum tenantMaximum tenant key used) where
  evict cache victimKey victim found making := by
    have removed := remove_of_lookup found
    have less := usage_remove found tenant
    constructor
    · exact (making.accounts.remove victimKey).counters _ _ _ _ _ _
    · change (cache.remove victimKey).entries.lookup key = none
      rw [removed]
      cases other : (cache.entries.erase victimKey).lookup key with
      | none => rfl
      | some entry =>
        have before := (lookup_erase_iff.mp other).2
        rw [making.absent] at before
        cases before
    · change (cache.remove victimKey).maximumBytes = maximum
      rw [removed]
      exact making.maximum
    · change (cache.remove victimKey).defaultTenantMaxBytes = tenantMaximum
      rw [removed]
      exact making.tenantMaximum
    · change (cache.remove victimKey).usage tenant ≤ used
      rw [less]
      exact le_trans (Nat.sub_le _ _) making.used
  reject cache making :=
    ⟨making.accounts.counters _ _ _ _ _ _, making.absent, making.maximum, making.tenantMaximum,
      making.used⟩

/-- What `put` leaves under its key: nothing, or the payload as one of the tenant. -/
def PutLeaves (tenant key : String) (payload : List UInt8) (after : HostCache ρ) : Prop :=
  after.entries.lookup key = none ∨ ∃ entry, after.entries.lookup key = some entry ∧
    entry.payload = payload ∧ entry.ownerTenant = tenant

section

variable [HostPriority ρ] [KeyHash] [IterationOrder] {payload : List UInt8}

/-- A payload that is larger than the cache is turned away at once. -/
theorem put_of_large {tenant : String}
    (large : cache.maximumBytes = 0 ∨ cache.maximumBytes < payload.length) :
    cache.put tenant key payload = cache := by
  rw [put, if_pos large]

theorem Accounts.put_of_small (accounts : cache.Accounts) {tenant : String}
    (small : ¬ (cache.maximumBytes = 0 ∨ cache.maximumBytes < payload.length)) :
    (cache.put tenant key payload).Accounts ∧
      PutLeaves tenant key payload (cache.put tenant key payload) := by
  have limits : (cache.remove key).maximumBytes = cache.maximumBytes ∧
      (cache.remove key).defaultTenantMaxBytes = cache.defaultTenantMaxBytes := by
    rw [HostCache.remove]
    split <;> exact ⟨rfl, rfl⟩
  have start : Making cache.maximumBytes cache.defaultTenantMaxBytes tenant key
      ((cache.remove key).usage tenant) (cache.remove key) :=
    ⟨accounts.remove key, lookup_remove_self cache key, limits.1, limits.2, le_refl _⟩
  rw [put, if_neg small]
  dsimp only
  have first := (loops_makeTenantRoom tenant (max ((cache.remove key).sketch.estimate key) 1)
    payload.length).keeps (stable_making _ _ _ _ _)
    ((cache.remove key).entries.keys.length + 1) start
  split
  next tenantFull =>
    rw [tenantFull] at first
    exact ⟨first.accounts, Or.inl first.absent⟩
  next roomy tenantRoom =>
    rw [tenantRoom] at first
    have room := (loops_makeTenantRoom tenant _ payload.length).room_of_true tenantRoom
    -- the second loop starts from the room that the first one has made for the tenant
    have between : Making cache.maximumBytes cache.defaultTenantMaxBytes tenant key
        (roomy.usage tenant) roomy :=
      ⟨first.accounts, first.absent, first.maximum, first.tenantMaximum, le_refl _⟩
    have second := (loops_makeRoom (max ((cache.remove key).sketch.estimate key) 1)
      payload.length).keeps (stable_making _ _ _ _ _) (roomy.entries.keys.length + 1) between
    split
    next full =>
      rw [full] at second
      exact ⟨second.accounts, Or.inl second.absent⟩
    next after made =>
      rw [made] at second
      have used : after.usage tenant ≤ roomy.usage tenant := second.used
      have tenantLimit : roomy.defaultTenantMaxBytes = after.defaultTenantMaxBytes :=
        first.tenantMaximum.trans second.tenantMaximum.symm
      constructor
      · apply second.accounts.store second.absent
        · rw [second.maximum]
          exact fun off => small (Or.inl off)
        · exact (loops_makeRoom _ payload.length).room_of_true made
        · have narrow := second.accounts.narrow
          rw [saturatingAdd, tenantLimit] at room
          change after.defaultTenantMaxBytes < usizeMax at narrow
          change after.usage tenant + payload.length ≤ after.defaultTenantMaxBytes
          omega
      · exact Or.inr ⟨_, lookup_insert _, rfl, rfl⟩

theorem Accounts.put (accounts : cache.Accounts) (tenant key : String) (payload : List UInt8) :
    (cache.put tenant key payload).Accounts := by
  by_cases large : cache.maximumBytes = 0 ∨ cache.maximumBytes < payload.length
  · rw [put_of_large large]
    exact accounts
  · exact (accounts.put_of_small large).1

/-- What a payload that the cache could hold leaves under its key. -/
theorem Accounts.putLeaves (accounts : cache.Accounts) (tenant key : String)
    (small : payload.length ≤ cache.maximumBytes) :
    PutLeaves tenant key payload (cache.put tenant key payload) := by
  by_cases off : cache.maximumBytes = 0
  · rw [put_of_large (Or.inl off)]
    exact Or.inl (accounts.off off key)
  · apply (accounts.put_of_small _).2
    exact fun large => large.elim off (not_lt.mpr small)

/-! ## Runs -/

/-- A call of the cache. -/
inductive Call where
  | get (key : String)
  | put (tenant key : String) (payload : List UInt8)
  | remove (key : String)

/-- The cache as a machine. -/
def calls : Machine (HostCache ρ) Call (Option (List UInt8)) where
  step cache
    | .get key => ((cache.get key).2, (cache.get key).1)
    | .put tenant key payload => (cache.put tenant key payload, none)
    | .remove key => (cache.remove key, none)

theorem accounts_run (maximumBytes tenantMaxPercent : Nat) (events : List Call) :
    (calls.run (new maximumBytes tenantMaxPercent : HostCache ρ) events).Accounts := by
  refine Machine.run_invariant ?_ (accounts_new maximumBytes tenantMaxPercent) events
  intro cache call accounts
  cases call with
  | get key => exact accounts.get key
  | put tenant key payload => exact accounts.put tenant key payload
  | remove key => exact accounts.remove key

/-- In every run the totals are those of the entries and within the limits.  A tenant is listed
without bytes only if it owns an empty payload.  A payload larger than the cache changes
nothing; any other is stored for its tenant or leaves its key empty.  In any cache, both loops
end within as many iterations as there are entries, and one more. -/
theorem hostCache_accounts (maximumBytes tenantMaxPercent : Nat) (events : List Call) :
    let reached : HostCache ρ := calls.run (new maximumBytes tenantMaxPercent) events
    (reached.currentBytes = reached.entryBytes ∧ reached.currentBytes ≤ reached.maximumBytes) ∧
    (∀ tenant, reached.usage tenant = reached.ownedBytes tenant ∧
      reached.usage tenant ≤ reached.defaultTenantMaxBytes) ∧
    (∀ tenant, reached.tenantBytes.lookup tenant = some 0 → ∃ key entry,
      reached.entries.lookup key = some entry ∧ entry.ownerTenant = tenant ∧
        entry.payload = []) ∧
    (∀ tenant key payload, (reached.maximumBytes < payload.length →
        reached.put tenant key payload = reached) ∧
      (payload.length ≤ reached.maximumBytes →
        PutLeaves tenant key payload (reached.put tenant key payload))) ∧
    ∀ (cache : HostCache ρ) frequency bytes more,
      (∀ tenant, cache.makeTenantRoom tenant frequency bytes
          (cache.entries.keys.length + 1 + more) =
        cache.makeTenantRoom tenant frequency bytes (cache.entries.keys.length + 1)) ∧
      cache.makeRoom frequency bytes (cache.entries.keys.length + 1 + more) =
        cache.makeRoom frequency bytes (cache.entries.keys.length + 1) := by
  intro reached
  have accounts : reached.Accounts := accounts_run maximumBytes tenantMaxPercent events
  refine ⟨⟨accounts.current, accounts.inMaximum⟩, ?_, accounts.listed, ?_, ?_⟩
  · exact fun tenant => ⟨accounts.owned tenant, accounts.inShare tenant⟩
  · intro tenant key payload
    exact ⟨fun large => put_of_large (Or.inr large), accounts.putLeaves tenant key⟩
  · intro cache frequency bytes more
    exact ⟨fun tenant => (loops_makeTenantRoom tenant frequency bytes).ends
      (Nat.lt_succ_self _) more,
      (loops_makeRoom frequency bytes).ends (Nat.lt_succ_self _) more⟩

end

/-- A copy stays when a payload that is larger than the cache is put under its key, and an
empty payload lists its tenant without bytes. -/
theorem hostCache_staleAndListed :
    let _ := wholeHostPriority
    let _ : KeyHash := ⟨fun _ _ => 0⟩
    let _ := IterationOrder.insertion
    let stale : HostCache Nat := calls.run (new 2 100) [.put "tenant" "key" [7]]
    let empty : HostCache Nat := calls.run (new 2 100) [.put "tenant" "key" []]
    (((stale.put "tenant" "key" [1, 2, 3]).entries.lookup "key").map HostEntry.payload = some [7]) ∧
      empty.tenantBytes.lookup "tenant" = some 0 := by
  decide +kernel

end HostCache

end VectorChord.Tilemaxsimd.Shards
