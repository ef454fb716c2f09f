import VectorChord.Vchordrq.ParallelBuild

/-!
# The phases of the parallel build

Nobody compacts a leaf while somebody still inserts, the leader does not return while
somebody still compacts, the orders of the first barrier share the leaves out, and the
conditions of the barriers never make all wait for each other.
-/

namespace VectorChord.Vchordrq.ParallelBuild

open Transition Finset Participant State

namespace Participant

local instance barriersNonzero : NeZero 3 := ⟨by decide⟩

/-- The participant has an order. -/
def Ordered (p : Participant) : Prop := (Stage.enter 0).rank < p.stage.rank

/-- The participant has finished its last insert and returned its surplus pages. -/
def Released (p : Participant) : Prop :=
  p.tuples = [] ∧ p.surplus = 0 ∧ Stage.release.rank < p.stage.rank

/-- The participant has started `maintain`. -/
def Maintains (p : Participant) : Prop := Stage.readParticipants.rank ≤ p.stage.rank

/-- The participant has finished `maintain`. -/
def Maintained (p : Participant) : Prop := Stage.maintain.rank < p.stage.rank

/-- The leaves that the participant has looked at are those below. -/
def progress (leaves : Nat) (p : Participant) : Nat :=
  if p.stage = .maintain then p.leaf else if Stage.maintain.rank < p.stage.rank then leaves else 0

/-- The participant has chosen the leaf, under an order. -/
def Chose (total leaves : Nat) (p : Participant) (leaf order : Nat) : Prop :=
  p.Ordered ∧ p.order = order ∧ leaf % total = order ∧ leaf < p.progress leaves

/-! ## What one step does -/

@[simp] theorem order_pass (barrier : Fin 3) (p : Participant) :
    (p.pass barrier).order = p.order := by
  fin_cases barrier <;> rfl

@[simp] theorem surplus_pass (barrier : Fin 3) (p : Participant) :
    (p.pass barrier).surplus = p.surplus := by
  fin_cases barrier <;> rfl

variable {leader : Bool} {total leaves : Nat} {shared : Shared} {index : Index}
  {p : Participant} {moved : Shared × Index × Participant}
  (steps : p.step leader total leaves shared index = moved)

include steps

/-- Who has left the loop has returned all pages. -/
theorem surplus_step (done : Stage.release.rank < p.stage.rank → p.surplus = 0)
    (after : Stage.release.rank < moved.2.2.stage.rank) : moved.2.2.surplus = 0 := by
  subst steps
  revert after
  fun_cases step
  case case1 other _ | case2 other _ _ _ | case4 other _ _ _ | case6 other _ =>
    fin_cases other <;> simp_all
  all_goals simp_all

/-- Only the leader comes to let the others leave. -/
theorem leave_step (isWorker : leader = false) (barrier : Fin 3) :
    moved.2.2.stage ≠ .leave barrier := by
  subst steps
  fun_cases step
  case case4 other _ _ _ | case6 other _ => fin_cases other <;> simp [pass]
  all_goals simp_all

/-- A flag is raised by who lets the others leave. -/
theorem barrierLeave_step (barrier : Fin 3) :
    moved.1.barrierLeave barrier = true ↔
      shared.barrierLeave barrier = true ∨ p.stage = .leave barrier := by
  subst steps
  fun_cases step
  case case6 other leaving =>
    by_cases same : barrier = other
    · simp [same, leaving]
    · simp [Function.update_of_ne same, leaving, Ne.symm same]
  all_goals simp_all

/-- A worker goes on from a barrier when the flag is raised. -/
theorem crossed_step (barrier : Fin 3) (isWorker : leader = false)
    (inside : ∀ barrier, p.stage ≠ .leave barrier)
    (after : Stage.base barrier + 1 < moved.2.2.stage.rank) :
    Stage.base barrier + 1 < p.stage.rank ∨ shared.barrierLeave barrier = true := by
  subst steps
  revert after
  fun_cases step
  case case1 other entering =>
    fin_cases barrier <;> fin_cases other <;> simp [entering]
  case case4 other waiting _ raised =>
    fin_cases barrier <;> fin_cases other <;> simp_all
  all_goals fin_cases barrier <;> simp_all

/-- The leader gets past a barrier by letting the others leave. -/
theorem left_step (barrier : Fin 3) (isLeader : leader = true)
    (after : Stage.base barrier + 2 < moved.2.2.stage.rank) :
    Stage.base barrier + 2 < p.stage.rank ∨ p.stage = .leave barrier := by
  subst steps
  revert after
  fun_cases step
  case case1 other here | case2 other here _ _ | case6 other here =>
    fin_cases barrier <;> fin_cases other <;> simp [here]
  all_goals fin_cases barrier <;> simp_all

/-- Who does not go on has come to the end, or waits for a counter or a flag. -/
theorem stage_of_stuck (stuck : moved.2.2 = p) :
    p.stage = .finished ∨ p.stage = .panicked ∨ ∃ barrier, p.stage = .wait barrier ∧
      if leader then shared.barrierEnter barrier ≠ total
      else shared.barrierLeave barrier = false := by
  subst steps
  cases p
  revert stuck
  fun_cases step
  case case4 other _ _ _ | case6 other _ => fin_cases other <;> simp_all [pass]
  all_goals simp_all

/-- The order of a participant is what the counter was when it came. -/
theorem order_step (_ : moved.2.2.Ordered) :
    (p.Ordered ∧ moved.2.2.order = p.order) ∨
      moved.2.2.order = shared.barrierEnter 0 ∧
        moved.1.barrierEnter 0 = shared.barrierEnter 0 + 1 := by
  subst steps
  unfold Ordered
  fun_cases step
  case case1 other entering => fin_cases other <;> simp [entering]
  all_goals simp_all

theorem barrierEnter_step (barrier : Fin 3) :
    shared.barrierEnter barrier ≤ moved.1.barrierEnter barrier := by
  subst steps
  fun_cases step
  case case1 other entering =>
    by_cases same : barrier = other
    · simp [same]
    · simp [Function.update_of_ne same]
  all_goals exact Nat.le_refl _

/-- The leader announces the number of participants when it comes. -/
theorem nparticipants_step (announced : p.Ordered → shared.nparticipants = total)
    (isLeader : leader = true) (after : moved.2.2.Ordered) : moved.1.nparticipants = total := by
  subst steps
  revert after announced
  unfold Ordered
  fun_cases step
  case case1 other entering => fin_cases other <;> simp_all
  all_goals simp_all

theorem nparticipants_step_worker (isWorker : leader = false) :
    moved.1.nparticipants = shared.nparticipants := by
  subst steps
  fun_cases step
  case case1 other entering => simp [isWorker]
  all_goals rfl

/-- The number of participants is read before the leaves are chosen. -/
theorem choosing_step
    (choosing : p.stage = .maintain → p.participants = total ∧ p.leaf ≤ leaves)
    (announced : p.Maintains → shared.nparticipants = total)
    (after : moved.2.2.stage = .maintain) :
    moved.2.2.participants = total ∧ moved.2.2.leaf ≤ leaves := by
  subst steps
  revert after
  unfold Maintains at announced
  fun_cases step
  case case4 other _ _ _ | case6 other _ => fin_cases other <;> simp [pass]
  all_goals simp_all [Nat.add_one_le_iff]

/-- Who has an order keeps it. -/
theorem order_step_of_ordered (ordered : p.Ordered) : moved.2.2.order = p.order := by
  subst steps
  unfold Ordered at ordered
  fun_cases step
  case case1 other entering => fin_cases other <;> simp_all
  all_goals simp_all

/-- Who has no order comes to the first barrier. -/
theorem progress_step_of_not_ordered (ordered : ¬ p.Ordered) :
    moved.2.1.maintained = index.maintained ∧ moved.2.2.progress leaves = 0 := by
  subst steps
  unfold Ordered at ordered
  fun_cases step
  case case1 other entering => fin_cases other <;> simp_all [progress]
  all_goals simp_all

/-- A step adds the leaf that it chooses. -/
theorem maintained_step
    (choosing : p.stage = .maintain → p.participants = total ∧ p.leaf ≤ leaves) :
    (moved.2.1.maintained = index.maintained ∧
        ∀ leaf, leaf % total = p.order →
          (leaf < moved.2.2.progress leaves ↔ leaf < p.progress leaves)) ∨
      moved.2.1.maintained = (p.progress leaves, p.order) :: index.maintained ∧
        p.progress leaves < leaves ∧ p.progress leaves % total = p.order ∧
        moved.2.2.progress leaves = p.progress leaves + 1 := by
  subst steps
  fun_cases step
  case case1 other here | case2 other here _ _ =>
    fin_cases other <;> simp [progress, here]
  case case4 other here _ _ | case6 other here =>
    left
    fin_cases other <;> simp [progress, here, pass]
  case case20 maintaining more chosen =>
    simp_all [progress]
  case case21 maintaining more chosen =>
    left
    -- the leaf that was not chosen is none of the participant's
    have passed : ∀ leaf, leaf % total = p.order → leaf ≠ p.leaf := by
      intro leaf mine same
      rw [same, ← (choosing maintaining).1] at mine
      exact chosen mine
    apply And.intro rfl
    intro leaf mine
    have different := passed leaf mine
    simp only [progress, maintaining, if_true]
    omega
  case case22 maintaining ended =>
    have last : p.leaf = leaves := le_antisymm (choosing maintaining).2 (Nat.le_of_not_lt ended)
    simp [progress, maintaining, last]
  all_goals
    left
    simp_all [progress]

theorem chose_step
    (choosing : p.stage = .maintain → p.participants = total ∧ p.leaf ≤ leaves) :
    (moved.2.1.maintained = index.maintained ∧
        ∀ leaf order, moved.2.2.Chose total leaves leaf order ↔ p.Chose total leaves leaf order) ∨
      ∃ chosen, moved.2.1.maintained = (chosen, p.order) :: index.maintained ∧
        p.Ordered ∧ ¬ p.Chose total leaves chosen p.order ∧
        ∀ leaf order, moved.2.2.Chose total leaves leaf order ↔
          (leaf, order) = (chosen, p.order) ∨ p.Chose total leaves leaf order := by
  by_cases ordered : p.Ordered
  · have ordered' : moved.2.2.Ordered := lt_of_lt_of_le ordered (rank_step steps)
    rcases maintained_step steps choosing with ⟨same, unchanged⟩ | ⟨more, inside, mine, next⟩
    · left
      apply And.intro same
      intro leaf order
      unfold Chose
      rw [order_step_of_ordered steps ordered]
      constructor
      · rintro ⟨_, rfl, mine, below⟩
        exact ⟨ordered, rfl, mine, (unchanged leaf mine).mp below⟩
      · rintro ⟨_, rfl, mine, below⟩
        exact ⟨ordered', rfl, mine, (unchanged leaf mine).mpr below⟩
    · right
      refine ⟨_, more, ordered, fun chose => lt_irrefl _ chose.2.2.2, ?_⟩
      intro leaf order
      unfold Chose
      rw [order_step_of_ordered steps ordered, next, Nat.lt_succ_iff_lt_or_eq, Prod.mk.injEq]
      constructor
      · rintro ⟨_, rfl, own, below | rfl⟩
        · exact .inr ⟨ordered, rfl, own, below⟩
        · exact .inl ⟨rfl, rfl⟩
      · rintro (⟨rfl, rfl⟩ | ⟨_, rfl, own, below⟩)
        · exact ⟨ordered', rfl, mine, .inr rfl⟩
        · exact ⟨ordered', rfl, own, .inl below⟩
  · rcases progress_step_of_not_ordered steps ordered with ⟨same, none⟩
    left
    apply And.intro same
    intro leaf order
    constructor
    · intro chose
      rw [Chose, none] at chose
      exact absurd chose.2.2.2 (Nat.not_lt_zero _)
    · exact fun chose => absurd chose.1 ordered

end Participant

/-! ## What every run keeps -/

variable {workers : Nat} {input : Input workers} {s : State workers}

/-- Flags, orders and leaves. -/
structure Phases (input : Input workers) (s : State workers) : Prop where
  released : ∀ p, Stage.release.rank < (s.participants p).stage.rank →
    (s.participants p).surplus = 0
  leaving : ∀ p, p ≠ 0 → ∀ barrier, (s.participants p).stage ≠ .leave barrier
  raised : ∀ barrier, s.shared.barrierLeave barrier = true →
    Stage.base barrier + 1 < s.leader.stage.rank
  crossed : ∀ p, p ≠ 0 → ∀ barrier, Stage.base barrier + 1 < (s.participants p).stage.rank →
    s.shared.barrierLeave barrier = true
  /-- The next order is larger than those that have been handed out. -/
  ordered : ∀ p, (s.participants p).Ordered → (s.participants p).order < s.shared.barrierEnter 0
  distinct : ∀ p q, (s.participants p).Ordered → (s.participants q).Ordered →
    (s.participants p).order = (s.participants q).order → p = q
  announced : s.leader.Ordered → s.shared.nparticipants = workers + 1
  choosing : ∀ p, (s.participants p).stage = .maintain →
    (s.participants p).participants = workers + 1 ∧ (s.participants p).leaf ≤ input.leaves
  /-- The leaves that have been chosen. -/
  chosen : ∀ leaf order, (leaf, order) ∈ s.index.maintained ↔
    ∃ p, (s.participants p).Chose (workers + 1) input.leaves leaf order
  once : s.index.maintained.Nodup

theorem Phases.start (input : Input workers) : Phases input input.start where
  released p far := rfl
  leaving p _ barrier same := by cases same
  raised barrier raised := by cases raised
  crossed p _ barrier far := by simp [Input.start] at far
  ordered p far := by simp [Input.start, Participant.Ordered] at far
  distinct p q far _ _ := by simp [Input.start, Participant.Ordered] at far
  announced far := by simp [State.leader, Input.start, Participant.Ordered] at far
  choosing p same := by cases same
  chosen leaf order := by simp [Input.start, Participant.Chose, Participant.Ordered]
  once := List.nodup_nil

variable {p : Fin (workers + 1)}

/-- Who has passed a barrier did so after all had entered it. -/
theorem Phases.all_entered (phases : Phases input s) (inv : Inv input s) {barrier : Fin 3}
    (far : Stage.base barrier + 1 < (s.participants p).stage.rank) (q : Fin (workers + 1)) :
    Stage.base barrier < (s.participants q).stage.rank := by
  apply inv.passed barrier
  by_cases isLeader : p = 0
  · rw [State.leader, ← isLeader]
    exact far
  · exact phases.raised barrier (phases.crossed p isLeader barrier far)

/-- The order that a step hands out is new. -/
theorem Phases.fresh (phases : Phases input s) {q : Fin (workers + 1)} (other : q ≠ p)
    (ordered : (s.participants q).Ordered) (after : (s.next input.leaves p).2.2.Ordered) :
    (s.participants q).order ≠ (s.next input.leaves p).2.2.order := by
  intro same
  rcases order_step rfl after with ⟨before, kept⟩ | ⟨new, _⟩
  · exact other (phases.distinct q p ordered before (same.trans kept))
  · exact Nat.ne_of_lt (phases.ordered q ordered) (same.trans new)

theorem Phases.distinct_step (phases : Phases input s) (p q r : Fin (workers + 1))
    (left : ((s.step input.leaves p).participants q).Ordered)
    (right : ((s.step input.leaves p).participants r).Ordered)
    (same : ((s.step input.leaves p).participants q).order =
      ((s.step input.leaves p).participants r).order) : q = r := by
  by_cases first : q = p
  · by_cases second : r = p
    · exact first.trans second.symm
    · rw [first, participants_step_self] at left same
      rw [participants_step_ne _ _ _ second] at right same
      exact absurd same.symm (phases.fresh second right left)
  · rw [participants_step_ne _ _ _ first] at left same
    by_cases second : r = p
    · rw [second, participants_step_self] at right same
      exact absurd same (phases.fresh first left right)
    · rw [participants_step_ne _ _ _ second] at right same
      exact phases.distinct q r left right same

/-- Somebody is the participant that steps, or one of the others. -/
theorem exists_participant (holds : Participant → Prop) (s : State workers)
    (p : Fin (workers + 1)) : (∃ q, holds (s.participants q)) ↔
      holds (s.participants p) ∨ ∃ q, q ≠ p ∧ holds (s.participants q) := by
  constructor
  · rintro ⟨q, found⟩
    by_cases same : q = p
    · exact .inl (same ▸ found)
    · exact .inr ⟨q, same, found⟩
  · rintro (found | ⟨q, _, found⟩)
    · exact ⟨p, found⟩
    · exact ⟨q, found⟩

theorem exists_participant_step (holds : Participant → Prop) (leaves : Nat) (s : State workers)
    (p : Fin (workers + 1)) : (∃ q, holds ((s.step leaves p).participants q)) ↔
      holds (s.next leaves p).2.2 ∨ ∃ q, q ≠ p ∧ holds (s.participants q) := by
  have others : (∃ q, q ≠ p ∧ holds ((s.step leaves p).participants q)) ↔
      ∃ q, q ≠ p ∧ holds (s.participants q) := by
    apply exists_congr
    intro q
    apply and_congr_right
    intro other
    rw [participants_step_ne _ _ _ other]
  rw [exists_participant holds _ p, participants_step_self, others]

/-- A step chooses a leaf that nobody has chosen, or none. -/
theorem Phases.chosen_step (phases : Phases input s) (p : Fin (workers + 1)) :
    (∀ leaf order, (leaf, order) ∈ (s.step input.leaves p).index.maintained ↔
      ∃ q, ((s.step input.leaves p).participants q).Chose (workers + 1) input.leaves leaf order) ∧
      (s.step input.leaves p).index.maintained.Nodup := by
  rcases chose_step rfl (phases.choosing p) with
    ⟨same, unchanged⟩ | ⟨chosen, more, ordered, new, grows⟩
  · have kept : (s.step input.leaves p).index.maintained = s.index.maintained := same
    rw [kept]
    constructor
    · intro leaf order
      rw [phases.chosen, exists_participant (·.Chose _ _ leaf order) s p,
        exists_participant_step (·.Chose _ _ leaf order)]
      exact or_congr_left (unchanged leaf order).symm
    · exact phases.once
  · have added : (s.step input.leaves p).index.maintained =
        (chosen, (s.participants p).order) :: s.index.maintained := more
    rw [added]
    constructor
    · intro leaf order
      rw [List.mem_cons, phases.chosen, exists_participant (·.Chose _ _ leaf order) s p,
        exists_participant_step (·.Chose _ _ leaf order), ← or_assoc]
      exact or_congr_left (grows leaf order).symm
    · apply List.nodup_cons.mpr (And.intro _ phases.once)
      intro member
      rcases (phases.chosen _ _).mp member with ⟨q, chose⟩
      have same := phases.distinct q p chose.1 ordered chose.2.1
      exact new (same ▸ chose)

theorem Phases.step (phases : Phases input s) (inv : Inv input s) (p : Fin (workers + 1)) :
    Phases input (s.step input.leaves p) where
  released := by
    apply forall_step fun _ participant =>
      Stage.release.rank < participant.stage.rank → participant.surplus = 0
    · exact phases.released
    · exact surplus_step rfl (phases.released p)
  leaving := by
    apply forall_step fun q participant => q ≠ 0 → ∀ barrier, participant.stage ≠ .leave barrier
    · exact phases.leaving
    · intro isWorker barrier
      exact leave_step rfl (decide_eq_false isWorker) barrier
  raised := by
    intro barrier raised
    apply lt_of_lt_of_le _ (rank_le_step _ s p 0)
    rcases (barrierLeave_step rfl barrier).mp raised with before | leaving
    · exact phases.raised barrier before
    · by_cases isLeader : p = 0
      · rw [isLeader] at leaving
        rw [leaving]
        exact Nat.lt_succ_self _
      · exact absurd leaving (phases.leaving p isLeader barrier)
  crossed := by
    apply forall_step fun q participant => q ≠ 0 → ∀ barrier,
      Stage.base barrier + 1 < participant.stage.rank →
        (s.step input.leaves p).shared.barrierLeave barrier = true
    · intro q isWorker barrier far
      exact (barrierLeave_step rfl barrier).mpr (.inl (phases.crossed q isWorker barrier far))
    · intro isWorker barrier far
      apply (barrierLeave_step rfl barrier).mpr
      rcases crossed_step rfl barrier (decide_eq_false isWorker)
        (phases.leaving p isWorker) far with before | raised
      · exact .inl (phases.crossed p isWorker barrier before)
      · exact .inl raised
  ordered := by
    apply forall_step fun q participant => participant.Ordered →
      participant.order < (s.step input.leaves p).shared.barrierEnter 0
    · intro q ordered
      exact lt_of_lt_of_le (phases.ordered q ordered) (barrierEnter_step rfl 0)
    · intro after
      rcases order_step rfl after with ⟨before, kept⟩ | ⟨new, counted⟩
      · rw [State.next, kept]
        exact lt_of_lt_of_le (phases.ordered p before) (barrierEnter_step rfl 0)
      · exact Nat.lt_of_lt_of_eq (Nat.lt_succ_of_le (le_of_eq new)) counted.symm
  distinct := phases.distinct_step p
  announced := by
    intro ordered
    by_cases isLeader : p = 0
    · cases isLeader
      exact nparticipants_step rfl phases.announced (decide_eq_true rfl) ordered
    · rw [State.leader, participants_step_ne _ _ _ (Ne.symm isLeader)] at ordered
      exact (nparticipants_step_worker rfl (decide_eq_false isLeader)).trans
        (phases.announced ordered)
  choosing := by
    apply forall_step fun _ participant => participant.stage = .maintain →
      participant.participants = workers + 1 ∧ participant.leaf ≤ input.leaves
    · exact phases.choosing
    · apply choosing_step rfl (phases.choosing p)
      intro maintains
      have far : Stage.base 0 + 1 < (s.participants p).stage.rank :=
        lt_of_lt_of_le (by decide) maintains
      exact phases.announced (phases.all_entered inv far 0)
  chosen := (phases.chosen_step p).1
  once := (phases.chosen_step p).2

theorem Phases.run (input : Input workers) (schedule : List (Fin (workers + 1))) :
    Inv input ((parallelBuild input).run input.start schedule) ∧
      Phases input ((parallelBuild input).run input.start schedule) := by
  apply @Machine.run_invariant _ _ _ (parallelBuild input) _ fun s => Inv input s ∧ Phases input s
  · intro s p both
    exact ⟨both.1.step p, both.2.step both.1 p⟩
  · exact ⟨.start input, .start input⟩

/-! ## The phases -/

theorem Inv.barrierEnter_le (inv : Inv input s) (barrier : Fin 3) :
    s.shared.barrierEnter barrier ≤ workers + 1 := by
  have bound : ∑ p, (s.participants p).entered barrier ≤ ∑ _p : Fin (workers + 1), 1 := by
    apply sum_le_sum
    intro p _
    unfold Participant.entered
    split
    · exact Nat.le_refl 1
    · exact Nat.zero_le 1
  rw [inv.entered barrier]
  apply bound.trans
  rw [sum_const, card_univ, Fintype.card_fin, smul_eq_mul, mul_one]

/-- When `maintain` has started somewhere, all inserts are done. -/
theorem Phases.released_of_maintains (phases : Phases input s) (inv : Inv input s)
    (maintains : (s.participants p).Maintains) (q : Fin (workers + 1)) :
    (s.participants q).Released := by
  have far : Stage.base 1 + 1 < (s.participants p).stage.rank :=
    lt_of_lt_of_le (by decide) maintains
  have entered := phases.all_entered inv far q
  have beyond : Stage.release.rank < (s.participants q).stage.rank :=
    lt_trans (by decide) entered
  exact ⟨inv.scanned q (lt_trans (by decide) entered), phases.released q beyond, beyond⟩

/-- When the leader is done, `maintain` is done everywhere. -/
theorem Inv.maintained_of_finished (inv : Inv input s) (finished : s.leader.stage = .finished)
    (q : Fin (workers + 1)) : (s.participants q).Maintained :=
  lt_trans (by decide) (inv.passed 2 (by rw [finished]; decide) q)

theorem Phases.order_lt (phases : Phases input s) (inv : Inv input s)
    (ordered : (s.participants p).Ordered) : (s.participants p).order < workers + 1 :=
  lt_of_lt_of_le (phases.ordered p ordered) (inv.barrierEnter_le 0)

/-- Every order is handed out. -/
theorem Phases.exists_order (phases : Phases input s) (inv : Inv input s)
    (ordered : ∀ p, (s.participants p).Ordered) {order : Nat} (small : order < workers + 1) :
    ∃ p, (s.participants p).order = order := by
  let orders : Fin (workers + 1) → Fin (workers + 1) := fun p =>
    ⟨(s.participants p).order, phases.order_lt inv (ordered p)⟩
  have injective : Function.Injective orders := fun p q same =>
    phases.distinct p q (ordered p) (ordered q) (Fin.mk.inj same)
  rcases Finite.surjective_of_injective injective ⟨order, small⟩ with ⟨p, found⟩
  exact ⟨p, Fin.mk.inj found⟩

/-- A leaf determines who chooses it. -/
theorem Phases.nodup_leaves (phases : Phases input s) :
    (s.index.maintained.map Prod.fst).Nodup := by
  apply (List.nodup_map_iff_inj_on phases.once).mpr
  intro left first right second same
  rcases (phases.chosen left.1 left.2).mp first with ⟨_, chose⟩
  rcases (phases.chosen right.1 right.2).mp second with ⟨_, chose'⟩
  apply Prod.ext same
  rw [← chose.2.2.1, ← chose'.2.2.1, same]

/-- When the leader is done, every leaf has been chosen by one participant. -/
theorem Phases.existsUnique_chosen (phases : Phases input s) (inv : Inv input s)
    (finished : s.leader.stage = .finished) {leaf : Nat} (inside : leaf < input.leaves) :
    ∃! p, (leaf, (s.participants p).order) ∈ s.index.maintained := by
  have maintained := inv.maintained_of_finished finished
  have ordered : ∀ p, (s.participants p).Ordered := fun p =>
    lt_trans (by decide) (maintained p)
  rcases phases.exists_order inv ordered (Nat.mod_lt leaf (Nat.succ_pos workers)) with ⟨p, mine⟩
  apply ExistsUnique.intro p
  · apply (phases.chosen leaf _).mpr
    have done : (s.participants p).progress input.leaves = input.leaves := by
      have far := maintained p
      unfold Participant.Maintained at far
      unfold Participant.progress
      rw [if_neg, if_pos far]
      intro maintaining
      rw [maintaining] at far
      exact lt_irrefl _ far
    exact ⟨p, ordered p, rfl, mine.symm, Nat.lt_of_lt_of_eq inside done.symm⟩
  · intro q member
    rcases (phases.chosen leaf _).mp member with ⟨_, chose⟩
    exact phases.distinct q p (ordered q) (ordered p) (chose.2.2.1.symm.trans mine.symm)

/-- For every number of workers and every schedule: nobody has started `maintain` unless all
have finished their inserts and returned their surplus pages; the leader has not returned
unless all have finished `maintain`; orders are distinct and below the number of
participants, and all of these when everybody has one; no leaf is chosen twice, and each is
chosen by exactly one participant when the leader returns. -/
theorem parallelBuild_phases (input : Input workers) (schedule : List (Fin (workers + 1))) :
    let s := (parallelBuild input).run input.start schedule
    (∀ p q, (s.participants p).Maintains → (s.participants q).Released) ∧
      (s.leader.stage = .finished → ∀ q, (s.participants q).Maintained) ∧
      (∀ p q, (s.participants p).Ordered → (s.participants q).Ordered →
        (s.participants p).order = (s.participants q).order → p = q) ∧
      (∀ p, (s.participants p).Ordered → (s.participants p).order < workers + 1) ∧
      ((∀ p, (s.participants p).Ordered) →
        ∀ order < workers + 1, ∃ p, (s.participants p).order = order) ∧
      (s.index.maintained.map Prod.fst).Nodup ∧
      (s.leader.stage = .finished → ∀ leaf < input.leaves,
        ∃! p, (leaf, (s.participants p).order) ∈ s.index.maintained) := by
  rcases Phases.run input schedule with ⟨inv, phases⟩
  refine ⟨?_, inv.maintained_of_finished, phases.distinct, ?_, ?_, phases.nodup_leaves, ?_⟩
  · intro p q maintains
    exact phases.released_of_maintains inv maintains q
  · intro p ordered
    exact phases.order_lt inv ordered
  · intro ordered order small
    exact phases.exists_order inv ordered small
  · intro finished leaf inside
    exact phases.existsUnique_chosen inv finished inside

/-! ## Progress -/

/-- The flags of the barriers that the leader has left behind are raised. -/
theorem raised_of_left (input : Input workers) (schedule : List (Fin (workers + 1)))
    (barrier : Fin 3) :
    let s := (parallelBuild input).run input.start schedule
    Stage.base barrier + 2 < s.leader.stage.rank → s.shared.barrierLeave barrier = true := by
  apply @Machine.run_invariant _ _ _ (parallelBuild input) _ fun s =>
    Stage.base barrier + 2 < s.leader.stage.rank → s.shared.barrierLeave barrier = true
  · intro s p raised after
    apply (barrierLeave_step rfl barrier).mpr
    by_cases isLeader : p = 0
    · subst isLeader
      exact (left_step rfl barrier rfl after).imp_left raised
    · change _ < ((s.step input.leaves p).participants 0).stage.rank at after
      rw [participants_step_ne _ _ _ (Ne.symm isLeader)] at after
      exact .inl (raised after)
  · simp [Input.start, State.leader]

/-- Somebody whose condition holds can go on, in every state that any schedule leads to, unless
all are done or the leader has panicked. -/
theorem parallelBuild_progress (input : Input workers) (schedule : List (Fin (workers + 1))) :
    let s := (parallelBuild input).run input.start schedule
    (∃ p, (s.step input.leaves p).participants p ≠ s.participants p) ∨
      (∃ p, (s.participants p).stage = .panicked) ∨
      ∀ p, (s.participants p).stage = .finished := by
  intro s
  have inv : Inv input s := (Phases.run input schedule).1
  have raised : ∀ barrier, Stage.base barrier + 2 < s.leader.stage.rank →
      s.shared.barrierLeave barrier = true := raised_of_left input schedule
  by_contra! none
  obtain ⟨stuck, calm, someone⟩ := none
  have waits := fun p => stage_of_stuck rfl ((participants_step_self _ s p).symm.trans (stuck p))
  -- nobody waits for a flag behind the leader
  have abreast : ∀ p, (s.participants p).stage = .finished ∨ p = 0 ∨ ∃ barrier,
      (s.participants p).stage = .wait barrier ∧ s.leader.stage.rank ≤ Stage.base barrier + 2 := by
    intro p
    by_cases isLeader : p = 0
    · exact .inr (.inl isLeader)
    · rcases waits p with finished | panicked | ⟨barrier, waiting, closed⟩
      · exact .inl finished
      · exact absurd panicked (calm p)
      · refine .inr (.inr ⟨barrier, waiting, ?_⟩)
        by_contra! ahead
        simp [isLeader, raised barrier ahead] at closed
  rcases waits 0 with finished | panicked | ⟨barrier, waiting, missing⟩
  · obtain ⟨p, unfinished⟩ := someone
    rcases abreast p with done | rfl | ⟨barrier, _, behind⟩
    · exact unfinished done
    · exact unfinished finished
    · rw [State.leader, finished] at behind
      fin_cases barrier <;> simp at behind
  · exact calm 0 panicked
  · have all : ∀ p, Stage.base barrier < (s.participants p).stage.rank := by
      intro p
      rcases abreast p with done | rfl | ⟨other, here, behind⟩
      · rw [done]
        fin_cases barrier <;> simp
      · simp [waiting]
      · rw [State.leader, waiting] at behind
        rw [here]
        fin_cases barrier <;> fin_cases other <;> simp_all
    simp [inv.entered, Participant.entered, all] at missing

end VectorChord.Vchordrq.ParallelBuild
