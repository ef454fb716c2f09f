import VectorChord.Tilemaxsimd.Fairness

/-!
# The choice of the scheduler

`pop` scans the queue for the item that no other is better than.  Each policy orders the
items that wait strictly and totally, so it finds the same item however the queue is
arranged.  With aging, an item that has waited long enough is overtaken by nobody.
-/

namespace VectorChord.Tilemaxsimd

open Collections Transition List Option Prod.Lex Machine

variable {ρ α : Type}

/-- The priority of an item that is pushed is an `i32`. -/
def QueueCall.InRange : QueueCall α → Prop
  | .push item => -2 ^ 31 ≤ item.priority ∧ item.priority < 2 ^ 31
  | _ => True

/-- The items that are pushed, with the numbers that they get from `next` on. -/
def stamped (next : Nat) : List (QueueCall α) → List (Scheduled α)
  | [] => []
  | .push item :: calls => { item with sequence := next } :: stamped (next + 1) calls
  | .drainExpired _ :: calls => stamped next calls
  | .pop _ :: calls => stamped next calls

namespace RequestQueue

/-! ## Histories -/

section

variable [Runtime ρ] {self : RequestQueue ρ α}

/-- Answer a call, with the items that leave the queue. -/
def answer (self : RequestQueue ρ α) : QueueCall α → RequestQueue ρ α × List (Scheduled α)
  | .push item => (self.push item, [])
  | .drainExpired now => ((self.drainExpired now).2, (self.drainExpired now).1)
  | .pop now => ((self.pop now).2, (self.pop now).1.toList)

/-- The queue as it is called. -/
def history : Machine (RequestQueue ρ α) (QueueCall α) (List (Scheduled α)) := ⟨answer⟩

theorem sequence_stamped (next : Nat) (calls : List (QueueCall α)) :
    (stamped next calls).map Scheduled.sequence =
      List.range' next (stamped next calls).length := by
  fun_induction stamped next calls with
  | case1 next => rfl
  | case2 next item calls ih => simp [ih, range'_succ]
  | case3 next now calls ih => exact ih
  | case4 next now calls ih => exact ih

theorem nodup_stamped (next : Nat) (calls : List (QueueCall α)) :
    ((stamped next calls).map Scheduled.sequence).Nodup := by
  rw [sequence_stamped]
  exact nodup_range'

theorem length_stamped (next next' : Nat) (calls : List (QueueCall α)) :
    (stamped next calls).length = (stamped next' calls).length := by
  fun_induction stamped next calls generalizing next' with
  | case1 next => rfl
  | case2 next item calls ih => simp [stamped, ih (next' + 1)]
  | case3 next now calls ih => exact ih next'
  | case4 next now calls ih => exact ih next'

theorem stamped_append (next : Nat) (calls later : List (QueueCall α)) :
    stamped next (calls ++ later) =
      stamped next calls ++ stamped (next + (stamped next calls).length) later := by
  fun_induction stamped next calls with
  | case1 next => rfl
  | case2 next item calls ih =>
    rw [cons_append, stamped, ih, length_cons, Nat.add_right_comm, add_assoc]
    rfl
  | case3 next now calls ih => exact ih
  | case4 next now calls ih => exact ih

variable {calls : List (QueueCall α)} {item : Scheduled α} {policy : SchedulerPolicy} {aging : Nat}
  {priorityBand : Int} {weights : Table String ρ}

/-- An item stands at its number among those that were pushed. -/
theorem getElem?_stamped (member : item ∈ stamped 0 calls) :
    (stamped 0 calls)[item.sequence]? = some item := by
  obtain ⟨index, inside, found⟩ := getElem_of_mem member
  have numbers := sequence_stamped 0 calls
  have number : item.sequence = index := by
    have here : ((stamped 0 calls).map Scheduled.sequence)[index]? = some item.sequence := by
      rw [getElem?_map, getElem?_eq_getElem inside, found]
      rfl
    rw [numbers, getElem?_range' inside] at here
    simpa using (Option.some.inj here).symm
  rw [number, getElem?_eq_getElem inside, found]

theorem pop_perm (self : RequestQueue ρ α) (now : Nat) :
    ((self.pop now).1.toList ++ (self.pop now).2.pending).Perm self.pending := by
  have spec := self.pop_spec now
  rcases popped : self.pop now with ⟨_ | item, after⟩
  · rw [popped] at spec
    simp [spec.1, spec.2]
  · rw [popped] at spec
    exact spec

theorem known_of_pop {now : Nat} (popped : (self.pop now).1 = some item) :
    self.pending[self.bestIndex now]? = some item := by
  rw [pop] at popped
  split at popped
  next => cases popped
  next found known =>
    cases popped
    exact known

/-- Popping often enough empties the queue. -/
theorem pending_run_pops (times : List Nat) (enough : self.pending.length ≤ times.length) :
    (history.run self (times.map .pop)).pending = [] := by
  induction times generalizing self with
  | nil => simpa using enough
  | cons now times ih =>
    apply ih
    have fewer := (pop_perm self now).length_eq
    have spec := self.pop_spec now
    change (self.pop now).2.pending.length ≤ times.length
    rw [length_append] at fewer
    rw [length_cons] at enough
    rcases popped : self.pop now with ⟨_ | item, after⟩
    · rw [popped] at spec
      simp [spec.2]
    · rw [popped] at fewer
      simp only [toList_some, length_singleton] at fewer
      dsimp only
      omega

/-- One call: what waits and what is still to be pushed leaves the queue or stays. -/
theorem answer_perm {call : QueueCall α}
    (few : self.nextSequence + (stamped 0 (call :: calls)).length < 2 ^ 64) :
    (self.answer call).1.nextSequence + (stamped 0 calls).length < 2 ^ 64 ∧
      ((self.answer call).2 ++ ((self.answer call).1.pending ++
        stamped (self.answer call).1.nextSequence calls)).Perm
          (self.pending ++ stamped self.nextSequence (call :: calls)) := by
  cases call with
  | push item =>
    rw [stamped, length_cons, length_stamped _ 0] at few
    have next : (self.answer (.push item)).1.nextSequence = self.nextSequence + 1 :=
      Nat.mod_eq_of_lt (by omega)
    rw [next]
    refine ⟨by omega, ?_⟩
    simp [answer, push, stamped]
  | drainExpired now =>
    refine ⟨few, ?_⟩
    rw [← append_assoc]
    exact (self.drainExpired_perm now).append_right _
  | pop now =>
    have next : (self.answer (.pop now)).1.nextSequence = self.nextSequence := by
      rw [answer, pop]
      split <;> rfl
    rw [next]
    refine ⟨few, ?_⟩
    rw [← append_assoc]
    exact (pop_perm self now).append_right _

/-- An item that waits leaves the queue or stays. -/
theorem mem_answer (member : item ∈ self.pending) (call : QueueCall α) :
    item ∈ (self.answer call).2 ∨ item ∈ (self.answer call).1.pending := by
  cases call with
  | push other => exact .inr (mem_append_left _ member)
  | drainExpired now =>
    exact mem_append.mp ((self.drainExpired_perm now).mem_iff.mpr member)
  | pop now => exact mem_append.mp ((pop_perm self now).mem_iff.mpr member)

/-- What was in the queue and what was pushed has left the queue or is still in it. -/
theorem history_perm (calls : List (QueueCall α))
    (few : self.nextSequence + (stamped 0 calls).length < 2 ^ 64) :
    ((history.answers self calls).flatten ++ (history.run self calls).pending).Perm
      (self.pending ++ stamped self.nextSequence calls) := by
  induction calls generalizing self with
  | nil => simp [answers, stamped]
  | cons call calls ih =>
    obtain ⟨fewer, first⟩ := answer_perm few
    rw [answers_cons, run_cons, flatten_cons, append_assoc]
    exact ((ih fewer).append_left _).trans first

/-- A queue with its policy, aging and priority band. -/
structure Configured (queue : RequestQueue ρ α) (policy : SchedulerPolicy) (aging : Nat)
    (priorityBand : Int) : Prop where
  policy : queue.policy = policy
  aging : queue.aging = aging
  priorityBand : queue.priorityBand = priorityBand

theorem Configured.run {policy : SchedulerPolicy} {aging : Nat} {priorityBand : Int}
    (configured : self.Configured policy aging priorityBand) (calls : List (QueueCall α)) :
    (history.run self calls).Configured policy aging priorityBand := by
  let invariant (queue : RequestQueue ρ α) := queue.Configured policy aging priorityBand
  suffices kept : ∀ queue call, invariant queue → invariant (history.step queue call).1 from
    run_invariant kept configured calls
  intro queue call before
  cases call with
  | push | drainExpired => exact ⟨before.policy, before.aging, before.priorityBand⟩
  | pop now =>
    change (queue.pop now).2.Configured policy aging priorityBand
    unfold pop
    split
    · exact before
    · exact ⟨before.policy, before.aging, before.priorityBand⟩

/-- The queue after some calls. -/
def after (policy : SchedulerPolicy) (aging : Nat) (priorityBand : Int) (weights : Table String ρ)
    (calls : List (QueueCall α)) : RequestQueue ρ α :=
  history.run (new policy aging priorityBand weights) calls

theorem configured_after (calls : List (QueueCall α)) :
    (after policy aging priorityBand weights calls).Configured policy aging
      (max priorityBand 0) :=
  Configured.run ⟨rfl, rfl, rfl⟩ calls

/-- Every item that was pushed has left the queue or is still in it. -/
theorem after_perm (few : (stamped 0 calls).length < 2 ^ 64) :
    ((history.answers (new policy aging priorityBand weights) calls).flatten ++
      (after policy aging priorityBand weights calls).pending).Perm (stamped 0 calls) := by
  apply history_perm calls
  change 0 + _ < _
  rwa [zero_add]

/-- An item that waits was pushed. -/
theorem mem_stamped_of_pending (few : (stamped 0 calls).length < 2 ^ 64)
    (member : item ∈ (after policy aging priorityBand weights calls).pending) :
    item ∈ stamped 0 calls :=
  (after_perm few).mem_iff.mp (mem_append_right _ member)

theorem priority_of_mem_stamped (P : Int → Prop) {next : Nat}
    (pushed : ∀ item, .push item ∈ calls → P item.priority) (member : item ∈ stamped next calls) :
    P item.priority := by
  fun_induction stamped next calls with
  | case1 next => cases member
  | case2 next first calls ih =>
    cases mem_cons.mp member with
    | inl same =>
      rw [same]
      exact pushed first mem_cons_self
    | inr later => exact ih (fun other inside => pushed other (mem_cons_of_mem _ inside)) later
  | case3 next now calls ih | case4 next now calls ih =>
    exact ih (fun other inside => pushed other (mem_cons_of_mem _ inside)) member

end

/-! ## Aging -/

section

variable {self : RequestQueue ρ α} {item : Scheduled α}

/-- The effective priority of an `i32` is an `i32`. -/
theorem effectivePriority_mem (self : RequestQueue ρ α)
    (range : -2 ^ 31 ≤ item.priority ∧ item.priority < 2 ^ 31) (now : Nat) :
    -2 ^ 31 ≤ self.effectivePriority item now ∧ self.effectivePriority item now < 2 ^ 31 := by
  unfold effectivePriority saturatingAddI32
  split
  · exact range
  · dsimp only
    omega

/-- An item that has waited for 200 aging periods has the highest priority. -/
theorem effectivePriority_of_old (aging : 1000000 ≤ self.aging) {now : Nat}
    (range : -100 ≤ item.priority) (old : 200 * self.aging ≤ now - item.enqueuedAt) :
    self.effectivePriority item now = 100 := by
  have positive : 0 < asMillis self.aging := Nat.div_pos aging (by decide)
  have steps : 200 ≤ asMillis (now - item.enqueuedAt) / max (asMillis self.aging) 1 := by
    rw [max_eq_left positive, Nat.le_div_iff_mul_le positive]
    unfold asMillis
    omega
  rw [effectivePriority, if_neg (by omega : self.aging ≠ 0)]
  dsimp only
  unfold saturatingAddI32
  omega

end

/-! ## The order of a policy -/

attribute [local instance] exactRuntime

section

variable (self : RequestQueue ℚ α) (now : Nat)

/-- The higher effective priority first, then the order of arrival. -/
def PriorityBefore (left right : Scheduled α) : Prop :=
  self.effectivePriority right now < self.effectivePriority left now ∨
    self.effectivePriority left now = self.effectivePriority right now ∧
      left.sequence < right.sequence

/-- The effective priority is within the band of the highest one. -/
def InBand (item : Scheduled α) : Prop :=
  ∀ other ∈ self.pending,
    self.effectivePriority other now - self.priorityBand ≤ self.effectivePriority item now

/-- The policy prefers an item to another one. -/
def Before (left right : Scheduled α) : Prop :=
  match self.policy with
  | .fair =>
    self.runtime left.tenant < self.runtime right.tenant ∨
      self.runtime left.tenant = self.runtime right.tenant ∧ left.sequence < right.sequence
  | .priority => self.PriorityBefore now left right
  | .fairPriority =>
    self.InBand now left ∧ ¬ self.InBand now right ∨
    (self.InBand now left ∧ self.InBand now right ∧
      (self.runtime left.tenant < self.runtime right.tenant ∨
        self.runtime left.tenant = self.runtime right.tenant ∧
          self.PriorityBefore now left right)) ∨
    (¬ self.InBand now left ∧ ¬ self.InBand now right ∧ self.PriorityBefore now left right)

/-- The items are ordered strictly and totally. -/
structure StrictTotal (before : Scheduled α → Scheduled α → Prop) (items : List (Scheduled α)) :
    Prop where
  irrefl : ∀ item ∈ items, ¬ before item item
  trans : ∀ first ∈ items, ∀ second ∈ items, ∀ third ∈ items,
    before first second → before second third → before first third
  total : ∀ left ∈ items, ∀ right ∈ items, left = right ∨ before left right ∨ before right left

/-- Where an item stands in the order of the policy: outside the band, runtime, priority and
number, as far as the policy looks at them. -/
def key (item : Scheduled α × Int) : Bool ×ₗ ℚ ×ₗ ℤᵒᵈ ×ₗ ℕ :=
  let late : Bool := item.2 < saturatingAddI32 (self.highest now) (-self.priorityBand)
  match self.policy with
  | .fair => toLex (false, toLex (self.runtime item.1.tenant, toLex (0, item.1.sequence)))
  | .priority => toLex (false, toLex (0, toLex (OrderDual.toDual item.2, item.1.sequence)))
  | .fairPriority => toLex (late, toLex (if late then 0 else self.runtime item.1.tenant,
      toLex (OrderDual.toDual item.2, item.1.sequence)))

theorem priorityCmp_iff (left right : Scheduled α × Int) : priorityCmp left right = true ↔
    toLex (OrderDual.toDual left.2, left.1.sequence) <
      toLex (OrderDual.toDual right.2, right.1.sequence) := by
  rw [toLex_lt_toLex]
  simp [priorityCmp]

/-- `better` compares keys. -/
theorem better_iff_key (left right : Scheduled α × Int) :
    self.better (self.highest now) left right = true ↔
      self.key now left < self.key now right := by
  cases policy : self.policy with
  | fair =>
    simp only [better, key, policy, fairCmp_iff, toLex_lt_toLex]
    simp
  | priority =>
    simp only [better, key, policy, priorityCmp_iff, toLex_lt_toLex]
    simp
  | fairPriority =>
    simp only [better, key, policy]
    generalize saturatingAddI32 (self.highest now) (-self.priorityBand) = floor
    rcases lt_or_ge left.2 floor with leftLate | leftEligible <;>
      rcases lt_or_ge right.2 floor with rightLate | rightEligible
    · simp [leftLate, rightLate, not_le.mpr leftLate, not_le.mpr rightLate, priorityCmp_iff,
        toLex_lt_toLex]
    · simp [leftLate, not_lt.mpr rightEligible, not_le.mpr leftLate, rightEligible,
        toLex_lt_toLex]
    · simp [not_lt.mpr leftEligible, rightLate, leftEligible, not_le.mpr rightLate,
        toLex_lt_toLex]
    · simp [not_lt.mpr leftEligible, not_lt.mpr rightEligible, leftEligible, rightEligible,
        priorityCmp_iff, toLex_lt_toLex]
      by_cases same : left.1.tenant = right.1.tenant
      · simp [same]
      · rw [if_neg same]
        exact or_congr decide_eq_true_iff (and_congr_left' decide_eq_true_iff)

/-- Some item that waits has the highest effective priority. -/
theorem highest_spec (some : self.pending ≠ []) :
    (∃ item ∈ self.pending, self.highest now = self.effectivePriority item now) ∧
      ∀ item ∈ self.pending, self.effectivePriority item now ≤ self.highest now := by
  have listed : (self.effective now).map Prod.snd =
      self.pending.map fun item => self.effectivePriority item now := by
    simp [effective]
  have filled : self.pending.map (fun item => self.effectivePriority item now) ≠ [] := by
    simpa using some
  obtain ⟨top, found⟩ := isSome_iff_exists.mp (isSome_max?_iff.mpr filled)
  obtain ⟨member, largest⟩ := max?_eq_some_iff.mp found
  have top_eq : self.highest now = top := by
    rw [highest, listed, found]
    rfl
  rw [top_eq]
  obtain ⟨item, inside, same⟩ := mem_map.mp member
  exact ⟨⟨item, inside, same.symm⟩, fun other inside => largest _ (mem_map_of_mem inside)⟩

variable {self now} {item : Scheduled α}

/-- Items with different numbers have different keys. -/
theorem sequence_of_key {left right : Scheduled α × Int}
    (same : self.key now left = self.key now right) : left.1.sequence = right.1.sequence := by
  cases policy : self.policy <;> simp [key, policy] at same
  · exact same.2
  · exact same.2
  · exact same.2.2.2

variable (band : 0 ≤ self.priorityBand)
  (range : ∀ item ∈ self.pending, -2 ^ 31 ≤ item.priority ∧ item.priority < 2 ^ 31)

include band range

/-- The floor of the band is a number that the priorities can be compared with. -/
theorem inBand_iff (member : item ∈ self.pending) :
    self.InBand now item ↔ ¬ self.effectivePriority item now <
      saturatingAddI32 (self.highest now) (-self.priorityBand) := by
  obtain ⟨⟨top, inside, same⟩, largest⟩ := self.highest_spec now (ne_nil_of_mem member)
  have topRange := self.effectivePriority_mem (range top inside) now
  have itemRange := self.effectivePriority_mem (range item member) now
  have floor : self.InBand now item ↔
      self.highest now - self.priorityBand ≤ self.effectivePriority item now := by
    constructor
    · intro all
      rw [same]
      exact all top inside
    · intro enough other listed
      have := largest other listed
      omega
  rw [floor, same]
  unfold saturatingAddI32
  omega

/-- The order of the policy is the order of the keys. -/
theorem before_iff_key {left right : Scheduled α} (first : left ∈ self.pending)
    (second : right ∈ self.pending) :
    self.Before now left right ↔
      self.key now (left, self.effectivePriority left now) <
        self.key now (right, self.effectivePriority right now) := by
  cases policy : self.policy with
  | fair =>
    simp only [Before, key, policy, toLex_lt_toLex]
    simp
  | priority =>
    simp only [Before, key, policy, PriorityBefore, toLex_lt_toLex]
    simp
  | fairPriority =>
    simp only [Before, key, policy, PriorityBefore, inBand_iff band range first,
      inBand_iff band range second]
    generalize saturatingAddI32 (self.highest now) (-self.priorityBand) = floor
    by_cases leftLate : self.effectivePriority left now < floor <;>
      by_cases rightLate : self.effectivePriority right now < floor <;>
      simp [leftLate, rightLate, toLex_lt_toLex]

variable (distinct : ∀ left ∈ self.pending, ∀ right ∈ self.pending,
    left.sequence = right.sequence → left = right)

include distinct

/-- The order of the policy is strict and total on items with different numbers. -/
theorem strictTotal_before :
    StrictTotal (self.Before now) self.pending where
  irrefl item member := by
    rw [before_iff_key band range member member]
    exact lt_irrefl _
  trans first inside second inside' third inside'' := by
    rw [before_iff_key band range inside inside', before_iff_key band range inside' inside'',
      before_iff_key band range inside inside'']
    exact lt_trans
  total left inside right inside' := by
    rw [before_iff_key band range inside inside', before_iff_key band range inside' inside]
    rcases lt_trichotomy (self.key now (left, self.effectivePriority left now))
      (self.key now (right, self.effectivePriority right now)) with less | same | more
    · exact .inr (.inl less)
    · exact .inl (distinct left inside right inside' (sequence_of_key same))
    · exact .inr (.inr more)

/-- `pop` returns the item that the policy prefers to all others. -/
theorem pop_before (popped : (self.pop now).1 = some item) :
    ∀ other ∈ self.pending, other = item ∨ self.Before now item other := by
  intro other member
  have known := known_of_pop popped
  have inside := mem_of_getElem? known
  have least := key_bestIndex_le (self.better_iff_key now) known member
  rw [before_iff_key band range inside member]
  cases lt_or_eq_of_le least with
  | inl less => exact .inr less
  | inr same => exact .inl (distinct other member item inside (sequence_of_key same.symm))

end

/-- In every history, `pop` takes the one item that the policy prefers to all others that
wait, and every item that was pushed leaves the queue once. -/
theorem pop_best (policy : SchedulerPolicy) (aging : Nat) (priorityBand : Int)
    (weights : Table String ℚ) (calls : List (QueueCall α))
    (few : (stamped 0 calls).length < 2 ^ 64) (range : ∀ call ∈ calls, call.InRange) :
    let queue := after policy aging priorityBand weights calls
    (∀ now, StrictTotal (queue.Before now) queue.pending ∧
      match queue.pop now with
      | (none, popped) => queue.pending = [] ∧ popped.pending = []
      | (some item, popped) => (item :: popped.pending).Perm queue.pending ∧
          ∀ other ∈ queue.pending, other = item ∨ queue.Before now item other) ∧
    ((history.answers (new policy aging priorityBand weights) calls).flatten ++
      queue.pending).Perm (stamped 0 calls) ∧
    ((stamped 0 calls).map Scheduled.sequence).Nodup ∧
    ∀ times : List Nat, queue.pending.length ≤ times.length →
      (history.run queue (times.map .pop)).pending = [] := by
  intro queue
  have band : 0 ≤ queue.priorityBand := by
    rw [(configured_after calls).priorityBand]
    exact le_max_right _ _
  have priorities : ∀ item ∈ queue.pending, -2 ^ 31 ≤ item.priority ∧ item.priority < 2 ^ 31 :=
    fun item member => priority_of_mem_stamped (fun priority => -2 ^ 31 ≤ priority ∧
      priority < 2 ^ 31)
      (fun pushed inside => range (.push pushed) inside) (mem_stamped_of_pending few member)
  have distinct : ∀ left ∈ queue.pending, ∀ right ∈ queue.pending,
      left.sequence = right.sequence → left = right :=
    fun left first right second same => inj_on_of_nodup_map (nodup_stamped 0 calls)
      (mem_stamped_of_pending few first) (mem_stamped_of_pending few second) same
  refine ⟨fun now => ⟨strictTotal_before band priorities distinct, ?_⟩, after_perm few,
    nodup_stamped 0 calls, ?_⟩
  · have spec := queue.pop_spec now
    rcases popped : queue.pop now with ⟨_ | item, popped'⟩
    · rw [popped] at spec
      exact spec
    · rw [popped] at spec
      exact ⟨spec, pop_before band priorities distinct (congrArg Prod.fst popped)⟩
  · intro times enough
    exact pending_run_pops times enough

/-- Three items of two tenants, one of them outside the band of the others. -/
def threeItems : List (QueueCall Unit) :=
  [.push (.new "red" 5 4 0 9 ()), .push (.new "red" 6 4 0 9 ()), .push (.new "blue" 1 3 0 9 ())]

theorem pop_best_threeItems :
    let queue := after .fairPriority 0 2 ∅ threeItems
    ((queue.pop 0).1.map fun item => (item.tenant, item.sequence)) = some ("red", 1) ∧
      StrictTotal (queue.Before 0) queue.pending := by
  refine ⟨by decide +kernel, ?_⟩
  have best := pop_best .fairPriority 0 2 ∅ threeItems (by decide) (by simp [threeItems,
    QueueCall.InRange, Scheduled.new])
  exact (best.1 0).1

/-! ## Nobody starves -/

section

variable [Runtime ρ] {self : RequestQueue ρ α} {now : Nat} {item old : Scheduled α}

/-- Under the policy `Priority`, no item that waits is of a higher priority than the one that
is popped, and none of the same priority came before it. -/
theorem pop_priority (policy : self.policy = .priority) {other : Scheduled α}
    (popped : (self.pop now).1 = some item) (member : other ∈ self.pending) :
    self.effectivePriority other now < self.effectivePriority item now ∨
      self.effectivePriority other now = self.effectivePriority item now ∧
        item.sequence ≤ other.sequence := by
  let key (entry : Scheduled α × Int) : ℤᵒᵈ ×ₗ ℕ :=
    toLex (OrderDual.toDual entry.2, entry.1.sequence)
  have agrees : ∀ left right,
      self.better (self.highest now) left right = true ↔ key left < key right := by
    intro left right
    simp only [better, policy]
    exact priorityCmp_iff left right
  have known : self.pending[self.bestIndex now]? = some item := known_of_pop popped
  have least := key_bestIndex_le agrees known member
  rw [toLex_le_toLex] at least
  simpa [eq_comm] using least

/-- What `pop` returns in a run, and when. -/
def returned (self : RequestQueue ρ α) : List (QueueCall α) → List (Nat × Scheduled α)
  | [] => []
  | .push item :: calls => (self.push item).returned calls
  | .drainExpired now :: calls => (self.drainExpired now).2.returned calls
  | .pop now :: calls =>
    (self.pop now).1.toList.map (fun item => (now, item)) ++ (self.pop now).2.returned calls

/-- An item is overtaken by nobody once it has the highest priority there is. -/
theorem pop_of_highest (policy : self.policy = .priority) (aging : 1000000 ≤ self.aging)
    (range : -100 ≤ old.priority) (member : old ∈ self.pending)
    (waited : 200 * self.aging ≤ now - old.enqueuedAt) (popped : (self.pop now).1 = some item) :
    item.sequence ≤ old.sequence := by
  have top := effectivePriority_of_old aging range waited
  have bound : self.effectivePriority item now ≤ 100 := by
    rw [effectivePriority, if_neg (by omega)]
    exact min_le_right _ _
  cases pop_priority policy popped member with
  | inl lower => exact absurd lower (by omega)
  | inr same => exact same.2

/-- The calls to come push items with other numbers than those that wait. -/
structure Fresh (queue : RequestQueue ρ α) (calls : List (QueueCall α)) : Prop where
  few : queue.nextSequence + (stamped 0 calls).length < 2 ^ 64
  nodup : ((queue.pending ++ stamped queue.nextSequence calls).map Scheduled.sequence).Nodup

variable {calls : List (QueueCall α)}

/-- What leaves the queue does not come back. -/
theorem Fresh.step {call : QueueCall α} (fresh : self.Fresh (call :: calls)) :
    (self.answer call).1.Fresh calls ∧
      ∀ item ∈ (self.answer call).2, item ∉ (history.run (self.answer call).1 calls).pending := by
  obtain ⟨few, first⟩ := answer_perm fresh.few
  have nodup := (first.map Scheduled.sequence).nodup_iff.mpr fresh.nodup
  rw [map_append, nodup_append] at nodup
  refine ⟨⟨few, nodup.2.1⟩, ?_⟩
  intro item left stays
  have later := (history_perm calls few).mem_iff.mp (mem_append_right _ stays)
  exact nodup.2.2 _ (mem_map_of_mem left) _ (mem_map_of_mem later) rfl

/-- Nobody who is popped in a run in which an old item waits all the time came after it. -/
theorem Fresh.returned_lt {aging : Nat} {priorityBand : Int} (fresh : self.Fresh calls)
    (configured : self.Configured .priority aging priorityBand) (millisecond : 1000000 ≤ aging)
    (range : -100 ≤ old.priority) (member : old ∈ self.pending)
    (stays : old ∈ (history.run self calls).pending) (popped : (now, item) ∈ self.returned calls)
    (waited : 200 * aging ≤ now - old.enqueuedAt) : item.sequence < old.sequence := by
  induction calls generalizing self with
  | nil => cases popped
  | cons call calls ih =>
    obtain ⟨fresh', gone⟩ := fresh.step
    have configured' : (self.answer call).1.Configured .priority aging priorityBand :=
      configured.run [call]
    have member' : old ∈ (self.answer call).1.pending := by
      cases mem_answer member call with
      | inl left => exact absurd stays (gone old left)
      | inr kept => exact kept
    have later := fun popped => ih fresh' configured' member' stays popped
    cases call with
    | push other => exact later popped
    | drainExpired time => exact later popped
    | pop time =>
      rw [returned, mem_append] at popped
      cases popped with
      | inr popped => exact later popped
      | inl first =>
        obtain ⟨found, listed, same⟩ := mem_map.mp first
        cases same
        have answered := mem_toList.mp listed
        have bound := pop_of_highest configured.policy
          (configured.aging.symm ▸ millisecond) range member
          (configured.aging.symm ▸ waited) answered
        apply Nat.lt_of_le_of_ne bound
        -- the old item itself has not been popped
        intro same
        have inside := mem_of_getElem? (known_of_pop answered)
        have equal : item = old := inj_on_of_nodup_map fresh.nodup
          (mem_append_left _ inside) (mem_append_left _ member) same
        exact gone old (equal ▸ listed) stays

theorem Fresh.run {later : List (QueueCall α)} (fresh : self.Fresh (calls ++ later)) :
    (history.run self calls).Fresh later := by
  induction calls generalizing self with
  | nil => exact fresh
  | cons call calls ih => exact ih fresh.step.1

end

/-- Under the policy `Priority` with aging, an item that has waited for 200 aging periods is
not overtaken by an item that was pushed after it. -/
theorem pop_of_old [Runtime ρ] (aging : Nat) (millisecond : 1000000 ≤ aging) (priorityBand : Int)
    (weights : Table String ρ) (calls later : List (QueueCall α))
    (few : (stamped 0 (calls ++ later)).length < 2 ^ 64)
    (range : ∀ item, .push item ∈ calls ++ later → -100 ≤ item.priority ∧ item.priority ≤ 100)
    (old : Scheduled α)
    (member : old ∈ (after .priority aging priorityBand weights calls).pending) :
    let queue := after .priority aging priorityBand weights calls
    let pushed := stamped 0 (calls ++ later)
    (∀ now, 200 * aging ≤ now - old.enqueuedAt →
      ∃ item, (queue.pop now).1 = some item ∧ pushed[item.sequence]? = some item ∧
        pushed[old.sequence]? = some old ∧ item.sequence ≤ old.sequence) ∧
    (old ∈ (history.run queue later).pending → ∀ now item, (now, item) ∈ queue.returned later →
      200 * aging ≤ now - old.enqueuedAt → item.sequence < old.sequence) := by
  intro queue pushed
  have configured : queue.Configured .priority aging (max priorityBand 0) := configured_after calls
  have whole := stamped_append 0 calls later
  have fewer : (stamped 0 calls).length < 2 ^ 64 := by
    rw [whole, length_append] at few
    omega
  have known : ∀ item ∈ queue.pending, item ∈ pushed := by
    intro item inside
    change item ∈ stamped 0 (calls ++ later)
    rw [whole]
    exact mem_append_left _ (mem_stamped_of_pending fewer inside)
  have priority : -100 ≤ old.priority :=
    (priority_of_mem_stamped (fun priority => -100 ≤ priority ∧ priority ≤ 100) range
      (known old member)).1
  constructor
  · intro now waited
    have spec := queue.pop_spec now
    rcases popped : queue.pop now with ⟨_ | item, popped'⟩
    · rw [popped] at spec
      rw [spec.1] at member
      cases member
    · have answered : (queue.pop now).1 = some item := by rw [popped]
      have inside := mem_of_getElem? (known_of_pop answered)
      refine ⟨item, rfl, getElem?_stamped (known item inside), getElem?_stamped
        (known old member), ?_⟩
      exact pop_of_highest configured.policy (configured.aging.symm ▸ millisecond) priority member
        (configured.aging.symm ▸ waited) answered
  · intro stays now item popped waited
    have start : (new .priority aging priorityBand weights).Fresh (calls ++ later) := by
      constructor
      · change 0 + _ < _
        rwa [zero_add]
      · exact nodup_stamped 0 (calls ++ later)
    exact start.run.returned_lt configured millisecond priority member stays popped waited

/-- Two items of low priority that have waited for long. -/
def twoOld : List (QueueCall Unit) :=
  [.push (.new "green" (-100) 1 0 1000000000 ()), .push (.new "red" (-100) 1 0 1000000000 ())]

/-- One of high priority comes, and one of the three is served. -/
def oneYoung : List (QueueCall Unit) :=
  [.push (.new "blue" 100 1 400000000 1000000000 ()), .pop 400000000]

/-- The second of the old items stays, and so the first one is served and not the young one. -/
theorem pop_of_old_oldAndYoung :
    let queue := after .priority 1000000 0 (∅ : Table String ℚ) twoOld
    let old : Scheduled Unit := ⟨"red", -100, 1, 0, 1000000000, (), 1⟩
    old ∈ queue.pending ∧ old ∈ (history.run queue oneYoung).pending ∧
      queue.returned oneYoung ≠ [] ∧
      ∀ now item, (now, item) ∈ queue.returned oneYoung → 200 * 1000000 ≤ now →
        item.sequence < old.sequence := by
  intro queue old
  have member : old ∈ queue.pending := mem_cons_of_mem _ mem_cons_self
  have stays : old ∈ (history.run queue oneYoung).pending := by decide +kernel
  have served := (pop_of_old 1000000 (le_refl _) 0 (∅ : Table String ℚ) twoOld oneYoung
    (by decide) (by simp [twoOld, oneYoung, Scheduled.new]) old member).2 stays
  exact ⟨member, stays, by decide +kernel, served⟩

end RequestQueue

end VectorChord.Tilemaxsimd
