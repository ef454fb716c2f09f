import VectorChord.Fairness.VirtualTime
import VectorChord.Tilemaxsimd.Scheduler
import VectorChord.Transition.Machine

/-!
# Weighted fairness

Under the policy `Fair` the queue pops an item of a tenant with the least virtual runtime,
and charges the tenant the cost of the item divided by its weight.  Two tenants that have
items all the time are served alike, up to one item of each.
-/

namespace VectorChord.Tilemaxsimd

open Collections Fairness Transition List AList Bool

/-- Virtual runtimes as exact numbers. -/
@[reducible] def exactRuntime : Runtime ℚ where
  zero := 0
  one := 1
  min := min
  max := max
  charge runtime cost weight := runtime + cost / weight
  lt left right := left < right
  eq left right := left = right

/-- A call of the scheduler. -/
inductive QueueCall (α : Type) where
  | push (item : Scheduled α)
  | drainExpired (now : Nat)
  | pop (now : Nat)

namespace RequestQueue

attribute [local instance] exactRuntime

variable {α : Type}

/-- Answer a call, with the item that was popped. -/
def serve (self : RequestQueue ℚ α) : QueueCall α → RequestQueue ℚ α × Option (Scheduled α)
  | .push item => (self.push item, none)
  | .drainExpired now => ((self.drainExpired now).2, none)
  | .pop now => ((self.pop now).2, (self.pop now).1)

/-- The queue as it is called. -/
def machine : Machine (RequestQueue ℚ α) (QueueCall α) (Option (Scheduled α)) := ⟨serve⟩

/-- A tenant has an item in the queue. -/
def Waits (self : RequestQueue ℚ α) (tenant : String) : Prop :=
  ∃ item ∈ self.pending, item.tenant = tenant

/-- The weight of a tenant. -/
def weight (self : RequestQueue ℚ α) (tenant : String) : ℚ := (self.weights.lookup tenant).getD 1

/-- What an answer charges a tenant. -/
def serviceOf (self : RequestQueue ℚ α) (tenant : String) : Option (Scheduled α) → ℚ
  | none => 0
  | some item => if item.tenant = tenant then item.cost / self.weight tenant else 0

/-- The service that a tenant receives in a run, divided by its weight. -/
def service (self : RequestQueue ℚ α) (calls : List (QueueCall α)) (tenant : String) : ℚ :=
  ((machine.answers self calls).map (self.serviceOf tenant)).sum

/-- The largest costs after a call: none if the queue is empty now. -/
def record (largest : String → Nat) (after : RequestQueue ℚ α) (popped : Option (Scheduled α)) :
    String → Nat :=
  if after.pending.isEmpty then fun _ => 0
  else popped.elim largest fun item =>
    Function.update largest item.tenant (max (largest item.tenant) item.cost)

/-- The largest cost of an item of each tenant, popped since the queue was last empty. -/
def largestCost : RequestQueue ℚ α → (String → Nat) → List (QueueCall α) → String → Nat
  | _, largest, [] => largest
  | self, largest, call :: calls =>
    (self.serve call).1.largestCost (record largest (self.serve call).1 (self.serve call).2) calls

/-! ## The item that is popped -/

section

variable (self : RequestQueue ℚ α)

theorem fairCmp_iff (left right : Scheduled α) : self.fairCmp left right = true ↔
    self.runtime left.tenant < self.runtime right.tenant ∨
      self.runtime left.tenant = self.runtime right.tenant ∧ left.sequence < right.sequence := by
  simp only [fairCmp, or_eq_true, and_eq_true, decide_eq_true_eq]
  exact or_congr decide_eq_true_iff (and_congr_left' decide_eq_true_iff)

variable {self}

/-- The item that is popped is of a tenant with the least runtime. -/
theorem runtime_bestIndex_le (fair : self.policy = .fair) {now : Nat} {item : Scheduled α}
    (popped : self.pending[self.bestIndex now]? = some item) {other : Scheduled α}
    (member : other ∈ self.pending) : self.runtime item.tenant ≤ self.runtime other.tenant := by
  let key (entry : Scheduled α × Int) : ℚ ×ₗ ℕ :=
    toLex (self.runtime entry.1.tenant, entry.1.sequence)
  have agrees : ∀ left right,
      self.better (self.highest now) left right = true ↔ key left < key right := by
    intro left right
    simp only [better, fair]
    rw [fairCmp_iff, Prod.Lex.toLex_lt_toLex]
  have least := key_bestIndex_le agrees popped member
  exact Prod.Lex.monotone_fst _ _ least

end

/-! ## Clocks -/

/-- The virtual runtimes as clocks of the tenants. -/
def clocks (self : RequestQueue ℚ α) (largest : String → Nat) : Clocks String ℚ where
  waits := self.Waits
  time := self.runtime
  burst tenant := largest tenant / self.weight tenant

/-- What holds in every state of the queue. -/
structure Fair (queue : RequestQueue ℚ α) (largest : String → Nat) : Prop where
  policy : queue.policy = .fair
  positive : ∀ tenant, 0 < queue.weight tenant
  entered : ∀ item ∈ queue.pending, item.tenant ∈ queue.virtualRuntime
  level : queue.pending ≠ [] → ∃ level, 0 ≤ level ∧ (queue.clocks largest).Level level

section

variable {self : RequestQueue ℚ α} {largest larger : String → Nat} {tenant : String}
  {item : Scheduled α} {after : RequestQueue ℚ α} {calls : List (QueueCall α)}

theorem Fair.burst_nonneg (fair : self.Fair largest) (larger : String → Nat) (tenant : String) :
    0 ≤ (larger tenant : ℚ) / self.weight tenant :=
  div_nonneg (Nat.cast_nonneg _) (le_of_lt (fair.positive tenant))

theorem Fair.burst_le (fair : self.Fair largest) (more : largest tenant ≤ larger tenant) :
    (largest tenant : ℚ) / self.weight tenant ≤ larger tenant / self.weight tenant :=
  div_le_div_of_nonneg_right (Nat.cast_le.mpr more) (le_of_lt (fair.positive tenant))

theorem fair_new {policy : SchedulerPolicy} (known : policy = .fair) (aging : Nat)
    (priorityBand : Int) {weights : Table String ℚ}
    (positive : ∀ tenant weight, weights.lookup tenant = some weight → 0 < weight)
    (largest : String → Nat) :
    (new policy aging priorityBand weights : RequestQueue ℚ α).Fair largest := by
  constructor
  · exact known
  · intro tenant
    change 0 < (weights.lookup tenant).getD 1
    cases found : weights.lookup tenant with
    | none => exact one_pos
    | some weight => exact positive tenant weight found
  · intro item member
    cases member
  · intro some
    exact absurd rfl some

/-! ### Baseline -/

theorem foldl_min_le (rest : List ℚ) (first : ℚ) :
    rest.foldl min first ≤ first ∧ ∀ value ∈ rest, rest.foldl min first ≤ value := by
  induction rest generalizing first with
  | nil =>
    constructor
    · exact le_refl _
    · intro value member
      cases member
  | cons second rest ih =>
    obtain ⟨below, all⟩ := ih (min first second)
    constructor
    · exact le_trans below (min_le_left _ _)
    · intro value member
      rcases mem_cons.mp member with rfl | later
      · exact le_trans below (min_le_right _ _)
      · exact all value later

theorem foldl_min_mem (rest : List ℚ) (first : ℚ) : rest.foldl min first ∈ first :: rest := by
  induction rest generalizing first with
  | nil => exact mem_cons_self
  | cons second rest ih =>
    rw [foldl_cons]
    rcases mem_cons.mp (ih (min first second)) with same | later
    · rw [same]
      rcases min_choice first second with left | right
      · rw [left]
        exact mem_cons_self
      · rw [right]
        exact mem_cons_of_mem _ mem_cons_self
    · exact mem_cons_of_mem _ (mem_cons_of_mem _ later)

/-- The baseline is the least runtime of a tenant that waits. -/
theorem Fair.baseline (fair : self.Fair largest) (some : self.pending ≠ []) :
    (∀ tenant, self.Waits tenant →
      RequestQueue.baseline self.pending self.virtualRuntime ≤ self.runtime tenant) ∧
    ∃ tenant, self.Waits tenant ∧
      RequestQueue.baseline self.pending self.virtualRuntime = self.runtime tenant := by
  have listed : ∀ value, value ∈ self.pending.filterMap (fun item =>
      self.virtualRuntime.lookup item.tenant) ↔
        ∃ tenant, self.Waits tenant ∧ value = self.runtime tenant := by
    intro value
    rw [mem_filterMap]
    constructor
    · rintro ⟨item, member, found⟩
      refine ⟨item.tenant, ⟨item, member, rfl⟩, ?_⟩
      rw [runtime, found]
      rfl
    · rintro ⟨tenant, ⟨item, member, rfl⟩, rfl⟩
      obtain ⟨value, found⟩ := Table.mem_iff_lookup.mp (fair.entered item member)
      refine ⟨item, member, ?_⟩
      rw [runtime, found]
      rfl
  unfold RequestQueue.baseline
  cases values : self.pending.filterMap (fun item => self.virtualRuntime.lookup item.tenant) with
  | nil =>
    obtain ⟨item, member⟩ := exists_mem_of_ne_nil _ some
    have inside := (listed _).mpr ⟨item.tenant, ⟨item, member, rfl⟩, rfl⟩
    rw [values] at inside
    cases inside
  | cons first rest =>
    rw [values] at listed
    constructor
    · intro tenant waits
      have inside := (listed _).mpr ⟨tenant, waits, rfl⟩
      obtain ⟨below, all⟩ := foldl_min_le rest first
      rcases mem_cons.mp inside with same | later
      · rw [same]
        exact below
      · exact all _ later
    · exact (listed _).mp (foldl_min_mem rest first)

/-! ### Calls -/

theorem waits_push : (self.push item).Waits tenant ↔ tenant = item.tenant ∨ self.Waits tenant := by
  constructor
  · rintro ⟨other, member, rfl⟩
    rcases mem_append.mp member with before | last
    · exact .inr ⟨other, before, rfl⟩
    · rw [mem_singleton.mp last]
      exact .inl rfl
  · rintro (rfl | ⟨other, member, rfl⟩)
    · exact ⟨_, mem_append_right _ mem_cons_self, rfl⟩
    · exact ⟨other, mem_append_left _ member, rfl⟩

theorem runtime_push_of_ne (some : self.pending ≠ []) (different : tenant ≠ item.tenant) :
    (self.push item).runtime tenant = self.runtime tenant := by
  have busy : self.pending.isEmpty = false := by simpa using some
  simp only [runtime, push, busy, false_eq_true, if_false]
  rw [lookup_insert_ne different]

section

variable (fair : self.Fair largest)

include fair

/-- A tenant that waits keeps its runtime when it pushes. -/
theorem Fair.runtime_push_self (waits : self.Waits item.tenant) :
    (self.push item).runtime item.tenant = self.runtime item.tenant := by
  obtain ⟨other, member, same⟩ := waits
  have busy : self.pending.isEmpty = false := by
    simpa using ne_nil_of_mem member
  have active : (self.pending.any fun pending => pending.tenant == item.tenant) = true :=
    any_eq_true.mpr ⟨other, member, beq_iff_eq.mpr same⟩
  have entered := fair.entered other member
  rw [same] at entered
  obtain ⟨value, found⟩ := Table.mem_iff_lookup.mp entered
  simp only [runtime, push, busy, active, false_eq_true, if_false, if_true, found,
    lookup_insert, Option.getD_some]

/-- A tenant that does not wait is set to the baseline, unless it is ahead. -/
theorem Fair.runtime_push_join (some : self.pending ≠ [])
    (idle : (self.pending.any fun pending => pending.tenant == item.tenant) = false) :
    (self.push item).runtime item.tenant = max (self.runtime item.tenant)
      (RequestQueue.baseline self.pending self.virtualRuntime) := by
  obtain ⟨level, nonneg, holds⟩ := fair.level some
  have busy : self.pending.isEmpty = false := by simpa using some
  have positive : 0 ≤ RequestQueue.baseline self.pending self.virtualRuntime := by
    obtain ⟨_, tenant, waits, same⟩ := fair.baseline some
    rw [same]
    exact le_trans nonneg (holds.below tenant waits)
  simp only [runtime, push, busy, idle, false_eq_true, if_false, lookup_insert,
    Option.getD_some]
  cases self.virtualRuntime.lookup item.tenant with
  | none => exact (max_self _).trans (max_eq_right positive).symm
  | some value => rfl

theorem Fair.push (item : Scheduled α) :
    (self.push item).Fair largest := by
  have entered : ∀ other ∈ (self.push item).pending,
      other.tenant ∈ (self.push item).virtualRuntime := by
    intro other member
    apply (mem_insert _).mpr
    rcases mem_append.mp member with before | last
    · have busy : self.pending.isEmpty = false := by simpa using ne_nil_of_mem before
      simp only [busy]
      exact .inr (fair.entered other before)
    · rw [mem_singleton.mp last]
      exact .inl rfl
  refine ⟨fair.policy, fair.positive, entered, fun _ => ?_⟩
  by_cases empty : self.pending = []
  · -- A new busy period begins with all clocks at zero.
    have zero : ∀ tenant, (self.push item).runtime tenant = 0 := by
      intro tenant
      have idle : self.pending.isEmpty = true := by simp [empty]
      simp only [runtime, RequestQueue.push, idle, if_true]
      by_cases same : tenant = item.tenant
      · rw [same, lookup_insert]
        simp only [RequestQueue.baseline, empty, filterMap_nil]
        exact max_self 0
      · rw [lookup_insert_ne same]
        rfl
    refine ⟨0, le_refl _, fun tenant _ => ?_, fun tenant => ?_⟩
    · exact le_of_eq (zero tenant).symm
    · change (self.push item).runtime tenant ≤ 0 + _
      rw [zero tenant, zero_add]
      exact fair.burst_nonneg largest tenant
  · obtain ⟨level, nonneg, holds⟩ := fair.level empty
    cases active : self.pending.any fun pending => pending.tenant == item.tenant with
    | true =>
      obtain ⟨pending, member, same⟩ := any_eq_true.mp active
      have waits : self.Waits item.tenant := ⟨pending, member, beq_iff_eq.mp same⟩
      refine ⟨level, nonneg, holds.leave ?_ ?_ (fun _ => le_refl _)⟩
      · intro tenant
        by_cases same : tenant = item.tenant
        · rw [same]
          exact fair.runtime_push_self waits
        · exact runtime_push_of_ne empty same
      · intro tenant later
        rcases waits_push.mp later with rfl | before
        · exact waits
        · exact before
    | false =>
      obtain ⟨least, first, waits, same⟩ := fair.baseline empty
      have risen : level ≤ RequestQueue.baseline self.pending self.virtualRuntime := by
        rw [same]
        exact holds.below first waits
      refine ⟨_, le_trans nonneg risen, holds.join risen least
        (fair.runtime_push_join empty active) (fun tenant => runtime_push_of_ne empty) ?_
        (fair.burst_nonneg largest item.tenant) (fun _ => le_refl _)⟩
      exact fun tenant later => waits_push.mp later

theorem Fair.drainExpired (now : Nat)
    (more : (self.drainExpired now).2.pending ≠ [] → ∀ tenant, largest tenant ≤ larger tenant) :
    (self.drainExpired now).2.Fair larger := by
  have fewer : ∀ item ∈ (self.drainExpired now).2.pending, item ∈ self.pending := fun item member =>
    (self.drainExpired_perm now).mem_iff.mp (mem_append_right _ member)
  refine ⟨fair.policy, fair.positive, fun item member => fair.entered item (fewer item member), ?_⟩
  intro some
  obtain ⟨item, member⟩ := exists_mem_of_ne_nil _ some
  obtain ⟨level, nonneg, holds⟩ := fair.level (ne_nil_of_mem (fewer item member))
  refine ⟨level, nonneg, holds.leave (fun _ => rfl) ?_ fun tenant =>
    fair.burst_le (more some tenant)⟩
  rintro tenant ⟨item, member, rfl⟩
  exact ⟨item, fewer item member, rfl⟩

/-- What `pop` does under this policy. -/
theorem Fair.pop_cases (now : Nat) :
    (self.pop now).1 = none ∧ (self.pop now).2 = self ∧ self.pending = [] ∨
    ∃ item ∈ self.pending, (self.pop now).1 = some item ∧
      (∀ other ∈ self.pending, self.runtime item.tenant ≤ self.runtime other.tenant) ∧
      (∀ other ∈ (self.pop now).2.pending, other ∈ self.pending) ∧
      (self.pop now).2.runtime item.tenant =
        self.runtime item.tenant + item.cost / self.weight item.tenant ∧
      (∀ tenant, tenant ≠ item.tenant → (self.pop now).2.runtime tenant = self.runtime tenant) ∧
      ∀ tenant, tenant ∈ self.virtualRuntime → tenant ∈ (self.pop now).2.virtualRuntime := by
  have spec := self.pop_spec now
  unfold pop at spec ⊢
  cases known : self.pending[self.bestIndex now]? with
  | none =>
    rw [known] at spec
    exact .inl ⟨rfl, rfl, spec.1⟩
  | some item =>
    rw [known] at spec
    refine .inr ⟨item, mem_of_getElem? known, rfl,
      fun other member => runtime_bestIndex_le fair.policy known member, ?_, ?_, ?_, ?_⟩
    · intro other member
      exact spec.mem_iff.mp (mem_cons_of_mem _ member)
    · change ((self.virtualRuntime.insert _ _).lookup _).getD _ = _
      rw [lookup_insert]
      rfl
    · intro tenant different
      change ((self.virtualRuntime.insert _ _).lookup _).getD _ = _
      rw [lookup_insert_ne different]
      rfl
    · intro tenant member
      exact (mem_insert _).mpr (.inr member)

theorem Fair.pop (now : Nat)
    (more : (self.pop now).2.pending ≠ [] → ∀ tenant, largest tenant ≤ larger tenant)
    (counted : (self.pop now).2.pending ≠ [] → ∀ item, (self.pop now).1 = some item →
      item.cost ≤ larger item.tenant) : (self.pop now).2.Fair larger := by
  rcases fair.pop_cases now with ⟨_, same, empty⟩ | ⟨item, member, popped, least, fewer, charged,
    unchanged, entered⟩
  · rw [same]
    exact ⟨fair.policy, fair.positive, fair.entered, fun some => absurd empty some⟩
  · have kept : (self.pop now).2.policy = self.policy ∧ (self.pop now).2.weight = self.weight := by
      unfold RequestQueue.pop
      split <;> exact ⟨rfl, rfl⟩
    refine ⟨kept.1.trans fair.policy, ?_, ?_, ?_⟩
    · rw [kept.2]
      exact fair.positive
    · intro other inside
      exact entered _ (fair.entered other (fewer other inside))
    · intro some
      obtain ⟨level, nonneg, holds⟩ := fair.level (ne_nil_of_mem member)
      have waits : self.Waits item.tenant := ⟨item, member, rfl⟩
      have positive := le_of_lt (fair.positive item.tenant)
      refine ⟨_, le_trans nonneg (holds.below _ waits), holds.serve waits ?_
        (div_nonneg (Nat.cast_nonneg item.cost) positive) charged unchanged ?_ ?_ ?_⟩
      · rintro other ⟨another, inside, rfl⟩
        exact least another inside
      · rintro other ⟨another, inside, rfl⟩
        exact ⟨another, fewer another inside, rfl⟩
      · change _ ≤ _ / (self.pop now).2.weight item.tenant
        rw [kept.2]
        exact div_le_div_of_nonneg_right (Nat.cast_le.mpr (counted some item popped)) positive
      · intro other
        change _ ≤ _ / (self.pop now).2.weight other
        rw [kept.2]
        exact fair.burst_le (more some other)

end

theorem le_record (some : after.pending ≠ []) (popped : Option (Scheduled α)) (tenant : String) :
    largest tenant ≤ record largest after popped tenant := by
  have busy : after.pending.isEmpty = false := by simpa using some
  simp only [record, busy]
  cases popped with
  | none => exact le_refl _
  | some item =>
    by_cases same : tenant = item.tenant
    · simp [same]
    · simp [same]

theorem cost_le_record (some : after.pending ≠ []) (item : Scheduled α) :
    item.cost ≤ record largest after (.some item) item.tenant := by
  have busy : after.pending.isEmpty = false := by simpa using some
  simp [record, busy]

/-- Every call keeps the level. -/
theorem Fair.serve (fair : self.Fair largest) (call : QueueCall α) :
    (self.serve call).1.Fair (record largest (self.serve call).1 (self.serve call).2) := by
  cases call with
  | push item =>
    have some : (self.push item).pending ≠ [] := by simp [RequestQueue.push]
    have same : record largest (self.push item) none = largest := by
      have busy : (self.push item).pending.isEmpty = false := by simpa using some
      simp [record, busy]
    change (self.push item).Fair (record largest (self.push item) none)
    rw [same]
    exact fair.push item
  | drainExpired now => exact fair.drainExpired now fun some => le_record some none
  | pop now =>
    apply fair.pop now
    · exact fun some => le_record some _
    · intro some item popped
      change _ ≤ record largest (self.pop now).2 (self.pop now).1 _
      rw [popped]
      exact cost_le_record some item

/-! ## Runs -/

theorem Fair.run (fair : self.Fair largest) (calls : List (QueueCall α)) :
    (machine.run self calls).Fair (self.largestCost largest calls) := by
  induction calls generalizing self largest with
  | nil => exact fair
  | cons call calls ih => exact ih (fair.serve call)

theorem largestCost_append (before during : List (QueueCall α)) :
    self.largestCost largest (before ++ during) =
      (machine.run self before).largestCost (self.largestCost largest before) during := by
  induction before generalizing self largest with
  | nil => rfl
  | cons call before ih => exact ih

theorem weight_serve (call : QueueCall α) : (self.serve call).1.weight = self.weight := by
  cases call with
  | push item => rfl
  | drainExpired now => rfl
  | pop now =>
    change (self.pop now).2.weight = self.weight
    unfold RequestQueue.pop
    split <;> rfl

theorem weight_run (calls : List (QueueCall α)) :
    (machine.run self calls).weight = self.weight := by
  induction calls generalizing self with
  | nil => rfl
  | cons call calls ih =>
    rw [Machine.run_cons, ih]
    exact weight_serve call

/-- The clock of a tenant that waits advances by the service that it receives. -/
theorem Fair.runtime_serve (fair : self.Fair largest) (waits : self.Waits tenant)
    (call : QueueCall α) : (self.serve call).1.runtime tenant =
      self.runtime tenant + self.serviceOf tenant (self.serve call).2 := by
  obtain ⟨first, member, named⟩ := waits
  have some := ne_nil_of_mem member
  cases call with
  | push item =>
    change (self.push item).runtime tenant = self.runtime tenant + 0
    rw [add_zero]
    by_cases same : tenant = item.tenant
    · rw [same]
      exact fair.runtime_push_self ⟨first, member, named.trans same⟩
    · exact runtime_push_of_ne some same
  | drainExpired now => exact (add_zero _).symm
  | pop now =>
    change (self.pop now).2.runtime tenant = _ + self.serviceOf tenant (self.pop now).1
    rcases fair.pop_cases now with ⟨_, _, empty⟩ | ⟨item, _, popped, _, _, charged, unchanged, _⟩
    · exact absurd empty some
    · rw [popped, serviceOf]
      split
      next same =>
        rw [← same]
        exact charged
      next different =>
        rw [add_zero]
        exact unchanged tenant fun same => different same.symm

/-- A tenant waits in every state of a run. -/
def WaitsThroughout (self : RequestQueue ℚ α) (calls : List (QueueCall α)) (tenant : String) :
    Prop :=
  machine.Along (fun queue _ => queue.Waits tenant) self calls ∧
    (machine.run self calls).Waits tenant

theorem WaitsThroughout.waits (throughout : self.WaitsThroughout calls tenant) :
    self.Waits tenant := by
  cases calls with
  | nil => exact throughout.2
  | cons call calls => exact throughout.1.1

theorem WaitsThroughout.rest {call : QueueCall α}
    (throughout : self.WaitsThroughout (call :: calls) tenant) :
    (self.serve call).1.WaitsThroughout calls tenant :=
  ⟨throughout.1.2, throughout.2⟩

theorem Fair.runtime_run (fair : self.Fair largest)
    (throughout : self.WaitsThroughout calls tenant) :
    (machine.run self calls).runtime tenant = self.runtime tenant + self.service calls tenant := by
  induction calls generalizing self largest with
  | nil => exact (add_zero _).symm
  | cons call calls ih =>
    have first := fair.runtime_serve throughout.waits call
    have later := ih (fair.serve call) throughout.rest
    have same : (self.serve call).1.serviceOf tenant = self.serviceOf tenant := by
      funext popped
      cases popped with
      | none => rfl
      | some item => simp only [serviceOf, weight_serve]
    change (machine.run (self.serve call).1 calls).runtime tenant = _
    rw [later, first, add_assoc]
    simp only [service, Machine.answers_cons, map_cons, sum_cons, same]
    rfl

/-- Costs are only forgotten when the queue is empty. -/
theorem largest_le_largestCost (throughout : self.WaitsThroughout calls tenant) (other : String) :
    largest other ≤ self.largestCost largest calls other := by
  induction calls generalizing self largest with
  | nil => exact le_refl _
  | cons call calls ih =>
    obtain ⟨item, member, _⟩ := throughout.rest.waits
    exact le_trans (le_record (ne_nil_of_mem member) _ other) (ih throughout.rest)

end

/-- In every history of the queue and every part of it in which two tenants wait all the time,
their services differ by at most the largest cost of each, divided by its weight. -/
theorem service_fair (aging : Nat) (priorityBand : Int) (weights : Table String ℚ)
    (positive : ∀ tenant weight, weights.lookup tenant = some weight → 0 < weight)
    (before during : List (QueueCall α)) (a b : String)
    (waits : (machine.run (new .fair aging priorityBand weights) before).WaitsThroughout during a)
    (waits' :
      (machine.run (new .fair aging priorityBand weights) before).WaitsThroughout during b) :
    let queue : RequestQueue ℚ α := new .fair aging priorityBand weights
    let largest := queue.largestCost (fun _ => 0) (before ++ during)
    |(machine.run queue before).service during a - (machine.run queue before).service during b| ≤
      largest a / queue.weight a + largest b / queue.weight b := by
  intro queue largest
  have start : queue.Fair (fun _ => 0) := fair_new rfl aging priorityBand positive _
  have first := start.run before
  have last := first.run during
  obtain ⟨level, _, holds⟩ := first.level (by
    obtain ⟨item, member, _⟩ := waits.waits
    exact ne_nil_of_mem member)
  obtain ⟨level', _, holds'⟩ := last.level (by
    obtain ⟨item, member, _⟩ := waits.2
    exact ne_nil_of_mem member)
  have bound := holds.abs_charges_sub_le holds' ?_ ⟨waits.waits, waits'.waits⟩ ⟨waits.2, waits'.2⟩
    (first.runtime_run waits) (first.runtime_run waits')
  · rw [← largestCost_append] at bound
    simp only [clocks, weight_run] at bound
    exact bound
  · intro tenant
    have more := first.burst_le (largest_le_largestCost waits tenant)
    simp only [clocks, weight_run] at more ⊢
    exact more

instance (self : RequestQueue ℚ α) (tenant : String) : Decidable (self.Waits tenant) :=
  inferInstanceAs (Decidable (∃ item ∈ self.pending, item.tenant = tenant))

instance (self : RequestQueue ℚ α) (calls : List (QueueCall α)) (tenant : String) :
    Decidable (self.WaitsThroughout calls tenant) :=
  inferInstanceAs (Decidable (machine.Along _ self calls ∧ (machine.run self calls).Waits tenant))

/-- Two tenants with two items each; the first has twice the weight. -/
def twoTenants : List (QueueCall Unit) :=
  [.push (.new "red" 0 4 0 9 ()), .push (.new "red" 0 4 0 9 ()), .push (.new "blue" 0 3 0 9 ()),
    .push (.new "blue" 0 3 0 9 ())]

theorem service_fair_twoTenants :
    let weights : Table String ℚ := (∅ : Table String ℚ).insert "red" 2
    let queue : RequestQueue ℚ Unit := new .fair 0 0 weights
    let largest := queue.largestCost (fun _ => 0) (twoTenants ++ [.pop 0, .pop 0])
    (machine.run queue twoTenants).service [.pop 0, .pop 0] "red" = 2 ∧
    (machine.run queue twoTenants).service [.pop 0, .pop 0] "blue" = 3 ∧
    |(machine.run queue twoTenants).service [.pop 0, .pop 0] "red" -
        (machine.run queue twoTenants).service [.pop 0, .pop 0] "blue"| ≤
      largest "red" / queue.weight "red" + largest "blue" / queue.weight "blue" := by
  intro weights queue largest
  refine ⟨by decide +kernel, by decide +kernel, ?_⟩
  apply service_fair 0 0 weights
  · intro tenant weight found
    rcases Table.lookup_insert_iff.mp found with ⟨_, rfl⟩ | ⟨_, none⟩
    · exact two_pos
    · cases none
  · decide +kernel
  · decide +kernel

end RequestQueue

end VectorChord.Tilemaxsimd
