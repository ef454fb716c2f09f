import VectorChord.Collections.Checked
import VectorChord.Collections.Order
import VectorChord.Collections.Table

/-!
# The queue of the scheduler

`RequestQueue` holds requests with a tenant, a priority and a deadline.  Its policies
decide which request is popped; none is lost or repeated, whatever clocks say and
whatever the arithmetic of virtual runtimes is.
-/

namespace VectorChord.Tilemaxsimd

open Collections List Option

variable {ρ α : Type}

/-! ## Vectors -/

/-- `Vec::swap_remove`, without the item that is returned. -/
def swapRemove (items : List α) (index : Nat) : List α :=
  match items.getLast? with
  | none => []
  | some last => (items.set index last).dropLast

theorem swapRemove_perm {items : List α} {index : Nat} {item : α}
    (known : items[index]? = some item) : (item :: swapRemove items index).Perm items := by
  cases items using reverseRec with
  | nil => cases known
  | append_singleton front last =>
    rw [swapRemove, getLast?_append, getLast?_singleton]
    rcases lt_or_ge index front.length with before | behind
    · rw [getElem?_append_left before] at known
      simp only [some_or]
      rw [set_append_left _ _ before, dropLast_concat]
      -- The item and the last one change places.
      have moved : (item :: front.set index last).Perm (last :: front) := by
        rcases List.getElem?_eq_some_iff.mp known with ⟨inside, rfl⟩
        rw [set_eq_take_append_cons_drop, if_pos inside]
        nth_rewrite 4 [← take_append_drop index front]
        rw [drop_eq_getElem_cons inside]
        exact ((perm_middle.cons _).trans (.swap _ _ _)).trans (perm_middle.symm.cons _)
      exact moved.trans (perm_append_singleton _ _).symm
    · have whole : (front ++ [last]).length = front.length + 1 := length_append
      have inside := (List.getElem?_eq_some_iff.mp known).1
      have here : index = front.length := by omega
      subst here
      rw [getElem?_append_right (Nat.le_refl _), Nat.sub_self] at known
      cases known
      simp only [some_or]
      rw [set_append_right _ _ (Nat.le_refl _), Nat.sub_self, set_cons_zero, dropLast_concat]
      exact (perm_append_singleton _ _).symm

theorem length_swapRemove {items : List α} {index : Nat} (inside : index < items.length) :
    (swapRemove items index).length + 1 = items.length :=
  (swapRemove_perm (getElem?_eq_getElem inside)).length_eq

/-! ## Queue -/

/-- The arithmetic of `f64` on virtual runtimes. -/
class Runtime (ρ : Type) where
  zero : ρ
  one : ρ
  min : ρ → ρ → ρ
  max : ρ → ρ → ρ
  /-- `runtime + cost / weight`. -/
  charge : (runtime : ρ) → (cost : Nat) → (weight : ρ) → ρ
  lt : ρ → ρ → Bool
  eq : ρ → ρ → Bool

/-- `SchedulerPolicy`. -/
inductive SchedulerPolicy where
  | fair
  | priority
  | fairPriority
  deriving DecidableEq, Repr

/-- `Scheduled`.  Instants and durations are in nanoseconds. -/
structure Scheduled (α : Type) where
  tenant : String
  priority : Int
  cost : Nat
  enqueuedAt : Nat
  deadline : Nat
  payload : α
  sequence : Nat
  deriving DecidableEq

/-- `Scheduled::new`. -/
def Scheduled.new (tenant : String) (priority : Int) (cost enqueuedAt deadline : Nat)
    (payload : α) : Scheduled α :=
  ⟨tenant, priority, max cost 1, enqueuedAt, deadline, payload, 0⟩

/-- `RequestQueue`. -/
structure RequestQueue (ρ α : Type) where
  policy : SchedulerPolicy
  aging : Nat
  priorityBand : Int
  pending : List (Scheduled α)
  virtualRuntime : Table String ρ
  weights : Table String ρ
  nextSequence : Nat

/-- `Duration::as_millis`. -/
def asMillis (duration : Nat) : Nat := duration / 1000000

/-- `i32::saturating_add`. -/
def saturatingAddI32 (left right : Int) : Int := max (min (left + right) (2 ^ 31 - 1)) (-2 ^ 31)

namespace RequestQueue

/-- `new`. -/
def new (policy : SchedulerPolicy) (aging : Nat) (priorityBand : Int) (weights : Table String ρ) :
    RequestQueue ρ α :=
  ⟨policy, aging, max priorityBand 0, [], ∅, weights, 0⟩

variable [Runtime ρ]

/-- The virtual runtime of a tenant. -/
def runtime (self : RequestQueue ρ α) (tenant : String) : ρ :=
  (self.virtualRuntime.lookup tenant).getD Runtime.zero

/-- The least virtual runtime of the tenants that wait. -/
def baseline (pending : List (Scheduled α)) (virtualRuntime : Table String ρ) : ρ :=
  match pending.filterMap fun item => virtualRuntime.lookup item.tenant with
  | [] => Runtime.zero
  | first :: rest => rest.foldl Runtime.min first

/-- `push`. -/
def push (self : RequestQueue ρ α) (item : Scheduled α) : RequestQueue ρ α :=
  let virtualRuntime := if self.pending.isEmpty then ∅ else self.virtualRuntime
  let tenantIsActive := self.pending.any fun pending => pending.tenant == item.tenant
  let baseline := baseline self.pending virtualRuntime
  let runtime := (virtualRuntime.lookup item.tenant).getD baseline
  { self with
    pending := self.pending ++ [{ item with sequence := self.nextSequence }]
    virtualRuntime := virtualRuntime.insert item.tenant
      (if tenantIsActive then runtime else Runtime.max runtime baseline)
    nextSequence := (self.nextSequence + 1) % 2 ^ 64 }

/-- The loop of `drain_expired`: those that have expired and those that are left. -/
def drain (now index : Nat) (pending expired : List (Scheduled α)) :
    List (Scheduled α) × List (Scheduled α) :=
  if inside : index < pending.length then
    if pending[index].deadline ≤ now then
      drain now index (swapRemove pending index) (expired ++ [pending[index]])
    else drain now (index + 1) pending expired
  else (expired, pending)
termination_by pending.length - index
decreasing_by
  · have := length_swapRemove inside
    omega
  · omega

/-- `drain_expired`. -/
def drainExpired (self : RequestQueue ρ α) (now : Nat) : List (Scheduled α) × RequestQueue ρ α :=
  let (expired, pending) := drain now 0 self.pending []
  (expired.mergeSort fun left right => left.sequence ≤ right.sequence,
    { self with pending := pending })

/-- `effective_priority`. -/
def effectivePriority (self : RequestQueue ρ α) (item : Scheduled α) (now : Nat) : Int :=
  if self.aging = 0 then item.priority
  else
    let waited := asMillis (now - item.enqueuedAt)
    let steps := waited / max (asMillis self.aging) 1
    min (saturatingAddI32 item.priority (min steps 200 : Nat)) 100

/-- `fair_cmp`. -/
def fairCmp (self : RequestQueue ρ α) (left right : Scheduled α) : Bool :=
  Runtime.lt (self.runtime left.tenant) (self.runtime right.tenant) ||
    (Runtime.eq (self.runtime left.tenant) (self.runtime right.tenant) &&
      left.sequence < right.sequence)

/-- The higher priority first, then the order of arrival. -/
def priorityCmp (left right : Scheduled α × Int) : Bool :=
  right.2 < left.2 || (left.2 == right.2 && left.1.sequence < right.1.sequence)

/-- `better`, on items with their effective priorities. -/
def better (self : RequestQueue ρ α) (highest : Int) (left right : Scheduled α × Int) : Bool :=
  match self.policy with
  | .fair => self.fairCmp left.1 right.1
  | .priority => priorityCmp left right
  | .fairPriority =>
    let floor := saturatingAddI32 highest (-self.priorityBand)
    let leftEligible : Bool := floor ≤ left.2
    let rightEligible : Bool := floor ≤ right.2
    if leftEligible != rightEligible then leftEligible
    else if !leftEligible then priorityCmp left right
    else if left.1.tenant == right.1.tenant then priorityCmp left right
    else
      Runtime.lt (self.runtime left.1.tenant) (self.runtime right.1.tenant) ||
        (Runtime.eq (self.runtime left.1.tenant) (self.runtime right.1.tenant) &&
          priorityCmp left right)

/-- An item is better than the one at an index. -/
def beats (self : RequestQueue ρ α) (highest : Int) (effective : List (Scheduled α × Int))
    (candidate : Scheduled α × Int) (best : Nat) : Bool :=
  effective[best]?.any fun current => self.better highest candidate current

/-- The loop of `pop`, from an index on. -/
def best (self : RequestQueue ρ α) (highest : Int) (effective : List (Scheduled α × Int)) :
    (index best : Nat) → List (Scheduled α × Int) → Nat
  | _, best, [] => best
  | index, best, candidate :: rest =>
    self.best highest effective (index + 1)
      (if self.beats highest effective candidate best then index else best) rest

/-- The index of the item to pop. -/
def bestIndex (self : RequestQueue ρ α) (now : Nat) : Nat :=
  let effective := self.pending.map fun item => (item, self.effectivePriority item now)
  let highest := (effective.map Prod.snd).max?.getD 0
  self.best highest effective 1 0 (effective.drop 1)

/-- `pop`. -/
def pop (self : RequestQueue ρ α) (now : Nat) : Option (Scheduled α) × RequestQueue ρ α :=
  match self.pending[self.bestIndex now]? with
  | none => (none, self)
  | some item =>
    let weight := (self.weights.lookup item.tenant).getD Runtime.one
    (some item, { self with
      pending := swapRemove self.pending (self.bestIndex now)
      virtualRuntime := self.virtualRuntime.insert item.tenant
        (Runtime.charge (self.runtime item.tenant) item.cost weight) })

/-! ## Nothing is lost -/

theorem drain_perm (now index : Nat) (pending expired : List (Scheduled α)) :
    ((drain now index pending expired).1 ++ (drain now index pending expired).2).Perm
      (expired ++ pending) := by
  fun_induction drain now index pending expired with
  | case1 index pending expired inside late ih =>
    apply ih.trans
    rw [append_assoc]
    exact (swapRemove_perm (getElem?_eq_getElem inside)).append_left _
  | case2 index pending expired inside early ih => exact ih
  | case3 index pending expired ended => exact .refl _

omit [Runtime ρ] in
/-- `drain_expired` splits the queue. -/
theorem drainExpired_perm (self : RequestQueue ρ α) (now : Nat) :
    ((self.drainExpired now).1 ++ (self.drainExpired now).2.pending).Perm self.pending := by
  have whole := drain_perm now 0 self.pending []
  exact ((mergeSort_perm _ _).append_right _).trans whole

theorem best_lt (self : RequestQueue ρ α) (highest : Int) {effective : List (Scheduled α × Int)}
    {index best : Nat} {rest : List (Scheduled α × Int)} (inside : best < effective.length)
    (room : index + rest.length ≤ effective.length) :
    self.best highest effective index best rest < effective.length := by
  induction rest generalizing index best with
  | nil => exact inside
  | cons candidate rest ih =>
    rw [length_cons] at room
    apply ih
    · split
      · omega
      · exact inside
    · omega

theorem bestIndex_lt (self : RequestQueue ρ α) (now : Nat) (some : self.pending ≠ []) :
    self.bestIndex now < self.pending.length := by
  have positive := length_pos_iff.mpr some
  have same : (self.pending.map fun item => (item, self.effectivePriority item now)).length =
      self.pending.length := length_map _
  rw [← same] at positive ⊢
  apply best_lt _ _ positive
  rw [length_drop]
  omega

/-- `pop` takes one item, if there is any. -/
theorem pop_spec (self : RequestQueue ρ α) (now : Nat) :
    match self.pop now with
    | (none, after) => self.pending = [] ∧ after.pending = []
    | (some item, after) => (item :: after.pending).Perm self.pending := by
  unfold pop
  cases known : self.pending[self.bestIndex now]? with
  | none =>
    have empty : self.pending = [] := by
      apply Classical.byContradiction
      intro some
      exact absurd (self.bestIndex_lt now some)
        (Nat.not_lt_of_le (getElem?_eq_none_iff.mp known))
    exact ⟨empty, empty⟩
  | some item => exact swapRemove_perm known

/-! ## The scan of `pop` -/

/-- The items that wait, with their effective priorities. -/
def effective (self : RequestQueue ρ α) (now : Nat) : List (Scheduled α × Int) :=
  self.pending.map fun item => (item, self.effectivePriority item now)

/-- The highest effective priority. -/
def highest (self : RequestQueue ρ α) (now : Nat) : Int :=
  ((self.effective now).map Prod.snd).max?.getD 0

section

variable {κ : Type} [LinearOrder κ] {self : RequestQueue ρ α} {key : Scheduled α × Int → κ}
  {effective : List (Scheduled α × Int)}

/-- The item at an index has the least key of those before another index. -/
def Leads (key : Scheduled α × Int → κ) (effective : List (Scheduled α × Int))
    (best index : Nat) : Prop :=
  ∃ current, effective[best]? = some current ∧ ∀ earlier < index, ∀ other,
    effective[earlier]? = some other → key current ≤ key other

theorem Leads.step {highest : Int}
    (agrees : ∀ left right, self.better highest left right = true ↔ key left < key right)
    {best index : Nat} {candidate : Scheduled α × Int} (leads : Leads key effective best index)
    (known : effective[index]? = some candidate) :
    Leads key effective (if self.beats highest effective candidate best then index else best)
      (index + 1) := by
  obtain ⟨current, found, behind⟩ := leads
  have compared : self.beats highest effective candidate best =
      self.better highest candidate current := by
    simp only [beats, found, any_some]
  rw [compared]
  split
  next wins =>
    have lower : key candidate ≤ key current := le_of_lt ((agrees _ _).mp wins)
    refine ⟨candidate, known, ?_⟩
    intro earlier before other there
    cases Nat.lt_succ_iff_lt_or_eq.mp before with
    | inl before => exact le_trans lower (behind earlier before other there)
    | inr same =>
      rw [same, known] at there
      cases there
      exact le_refl _
  next loses =>
    have lower : key current ≤ key candidate := not_lt.mp fun less => loses ((agrees _ _).mpr less)
    refine ⟨current, found, ?_⟩
    intro earlier before other there
    cases Nat.lt_succ_iff_lt_or_eq.mp before with
    | inl before => exact behind earlier before other there
    | inr same =>
      rw [same, known] at there
      cases there
      exact lower

theorem Leads.loop {highest : Int}
    (agrees : ∀ left right, self.better highest left right = true ↔ key left < key right)
    {best index : Nat} {rest : List (Scheduled α × Int)} (ahead : effective.drop index = rest)
    (leads : Leads key effective best index) :
    Leads key effective (self.best highest effective index best rest) effective.length := by
  induction rest generalizing best index with
  | nil =>
    obtain ⟨current, found, behind⟩ := leads
    refine ⟨current, found, ?_⟩
    intro earlier before other there
    exact behind earlier (lt_of_lt_of_le before (drop_eq_nil_iff.mp ahead)) other there
  | cons candidate rest ih =>
    obtain ⟨known, ahead'⟩ := of_drop_eq_cons ahead
    exact ih ahead' (leads.step agrees known)

/-- Where `better` compares keys, the item that is popped has the least key. -/
theorem key_bestIndex_le {now : Nat} (agrees : ∀ left right,
      self.better (self.highest now) left right = true ↔ key left < key right)
    {item : Scheduled α} (popped : self.pending[self.bestIndex now]? = some item)
    {other : Scheduled α} (member : other ∈ self.pending) :
    key (item, self.effectivePriority item now) ≤
      key (other, self.effectivePriority other now) := by
  cases pending : self.pending with
  | nil =>
    rw [pending] at member
    cases member
  | cons first rest =>
    have start : Leads key (self.effective now) 0 1 := by
      refine ⟨(first, self.effectivePriority first now), by rw [effective, pending]; rfl, ?_⟩
      intro earlier before other there
      cases Nat.lt_one_iff.mp before
      rw [effective, pending] at there
      cases there
      exact le_refl _
    obtain ⟨current, found, behind⟩ := start.loop agrees rfl
    have chosen : current = (item, self.effectivePriority item now) := by
      have listed : (self.effective now)[self.bestIndex now]? =
          some (item, self.effectivePriority item now) := by
        rw [effective, getElem?_map, popped]
        rfl
      exact Option.some.inj (found.symm.trans listed)
    obtain ⟨index, inside, rfl⟩ := getElem_of_mem member
    rw [← chosen]
    apply behind index
    · rw [effective, length_map]
      exact inside
    · rw [effective, getElem?_map, getElem?_eq_getElem inside]
      rfl

end

end RequestQueue

end VectorChord.Tilemaxsimd
