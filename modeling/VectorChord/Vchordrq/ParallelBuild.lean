import VectorChord.Transition.Machine

/-!
# The parallel build

The leader and its workers insert the tuples of a parallel heap scan, return the pages
they have bought in advance, and then share the leaves to compact among them.  Three
barriers keep the phases apart.  Each has a counter that every participant increments on
entering, and a flag that the leader raises when all have entered.

A section under the spin lock is one step, and so is an access to shared memory outside
of it.  Waiting on a condition variable is a step that may happen at any time and leaves
everything as it is while the condition does not hold.
-/

namespace VectorChord.Vchordrq.ParallelBuild

open Transition Finset Machine

/-- `MAX_INDEXED_VECTORS`. -/
def maxIndexedVectors : Nat := 2 ^ 48 - 1

/-- The mutable state of `VchordrqShared`; the barriers are numbered. -/
structure Shared where
  nparticipants : Nat
  indtuples : Nat
  indexedVectors : Nat
  barrierEnter : Fin 3 → Nat
  barrierLeave : Fin 3 → Bool

/-- The index, as far as the build needs it: the statistic of the meta page, the number
of vectors inserted so far, and the leaves that have been compacted, each with the order
of the participant that chose it. -/
structure Index where
  indexedVectors : Option Nat
  inserted : Nat
  maintained : List (Nat × Nat)
  deriving DecidableEq, Repr

/-- Where a participant is in `parallel_build`. -/
inductive Stage where
  | enter (barrier : Fin 3)
  | wait (barrier : Fin 3)
  /-- Only the leader lets the others leave. -/
  | leave (barrier : Fin 3)
  /-- Ask the scan for the next tuple. -/
  | traverse
  | insert
  /-- Add the tuple to the shared counters. -/
  | count
  /-- `while index.release() { consume }`. -/
  | release
  | readTuples
  | readVectors
  | setVectors
  /-- Make the chooser of `maintain`. -/
  | readParticipants
  | maintain
  | finished
  | panicked
  deriving DecidableEq, Repr

/-- A participant: its stage and its local variables.  The scan gives it the tuples of
`tuples`, each with the number of its vectors.  How many pages it has bought in advance after
each insert is in `purchases`. -/
structure Participant where
  stage : Stage
  order : Nat
  tuples : List Nat
  store : Nat
  left : Nat
  purchases : List Nat
  surplus : Nat
  indtuples : Nat
  indexedVectors : Nat
  participants : Nat
  leaf : Nat
  deriving DecidableEq, Repr

namespace Participant

/-- Where a participant goes after a barrier. -/
def pass (barrier : Fin 3) (p : Participant) : Participant :=
  match barrier with
  | 0 => { p with stage := .traverse }
  | 1 => { p with stage := .readParticipants }
  | 2 => { p with stage := .finished }

/-- One step of the leader or of a worker, among `total` participants, on an index with
`leaves` leaves. -/
def step (leader : Bool) (total leaves : Nat) (shared : Shared) (index : Index)
    (p : Participant) : Shared × Index × Participant :=
  match p.stage with
  | .enter barrier =>
    ({ shared with
        nparticipants := if leader && barrier = 0 then total else shared.nparticipants
        barrierEnter :=
          Function.update shared.barrierEnter barrier (shared.barrierEnter barrier + 1) }, index,
      { p with
        stage := .wait barrier
        order := if barrier = 0 then shared.barrierEnter 0 else p.order })
  | .wait barrier =>
    if leader then
      if shared.barrierEnter barrier = total then
        (shared, index, { p with stage := .leave barrier })
      else (shared, index, p)
    else if shared.barrierLeave barrier then (shared, index, p.pass barrier)
    else (shared, index, p)
  | .leave barrier =>
    ({ shared with barrierLeave := Function.update shared.barrierLeave barrier true },
      index, p.pass barrier)
  | .traverse =>
    match p.tuples with
    | [] => (shared, index, { p with stage := .release })
    | store :: tuples =>
      (shared, index, { p with stage := .insert, tuples := tuples, store := store, left := store })
  | .insert =>
    match p.left with
    | 0 => (shared, index, { p with stage := .count })
    | left + 1 =>
      (shared, { index with inserted := index.inserted + 1 },
        { p with
          left := left
          purchases := p.purchases.tail
          surplus := p.purchases.headD p.surplus })
  | .count =>
    ({ shared with
        indtuples := (shared.indtuples + 1) % 2 ^ 64
        indexedVectors := (shared.indexedVectors + p.store) % 2 ^ 64 },
      index, { p with stage := .traverse })
  | .release =>
    match p.surplus with
    | 0 => (shared, index, { p with stage := .readTuples })
    | surplus + 1 => (shared, index, { p with surplus := surplus })
  | .readTuples =>
    (shared, index, { p with stage := .readVectors, indtuples := shared.indtuples })
  | .readVectors =>
    if leader then
      (shared, index, { p with stage := .setVectors, indexedVectors := shared.indexedVectors })
    else
      (shared, index, { p with stage := .enter 1, indexedVectors := shared.indexedVectors })
  | .setVectors =>
    if p.indexedVectors ≤ maxIndexedVectors then
      (shared, { index with indexedVectors := some p.indexedVectors }, { p with stage := .enter 1 })
    else (shared, index, { p with stage := .panicked })
  | .readParticipants =>
    (shared, index, { p with stage := .maintain, participants := shared.nparticipants, leaf := 0 })
  | .maintain =>
    if p.leaf < leaves then
      if p.leaf % p.participants = p.order then
        (shared, { index with maintained := (p.leaf, p.order) :: index.maintained },
          { p with leaf := p.leaf + 1 })
      else (shared, index, { p with leaf := p.leaf + 1 })
    else (shared, index, { p with stage := .enter 2 })
  | .finished => (shared, index, p)
  | .panicked => (shared, index, p)

end Participant

/-- The state of a build with a number of workers; participant zero is the leader. -/
structure State (workers : Nat) where
  shared : Shared
  index : Index
  participants : Fin (workers + 1) → Participant

/-- How the scan and the bought pages are distributed, and the number of leaves. -/
structure Input (workers : Nat) where
  tuples : Fin (workers + 1) → List Nat
  purchases : Fin (workers + 1) → List Nat
  leaves : Nat

variable {workers : Nat}

def Input.start (input : Input workers) : State workers where
  shared := ⟨0, 0, 0, fun _ => 0, fun _ => false⟩
  index := ⟨some 0, 0, []⟩
  participants p := ⟨.enter 0, 0, input.tuples p, 0, 0, input.purchases p, 0, 0, 0, 0, 0⟩

/-- The number of vectors of all heap tuples. -/
def Input.total (input : Input workers) : Nat := ∑ p, (input.tuples p).sum

/-- What participant `p` does next. -/
def State.next (leaves : Nat) (s : State workers) (p : Fin (workers + 1)) :
    Shared × Index × Participant :=
  (s.participants p).step (p = 0) (workers + 1) leaves s.shared s.index

/-- A step of participant `p`. -/
def State.step (leaves : Nat) (s : State workers) (p : Fin (workers + 1)) :
    State workers where
  shared := (s.next leaves p).1
  index := (s.next leaves p).2.1
  participants := Function.update s.participants p (s.next leaves p).2.2

/-- The build under a schedule. -/
def parallelBuild (input : Input workers) :
    Machine (State workers) (Fin (workers + 1)) Unit where
  step s p := (s.step input.leaves p, ())

/-! ## What one step does -/

/-- How far one has come at the entrance of a barrier. -/
def Stage.base : Fin 3 → Nat
  | 0 => 0
  | 1 => 8
  | 2 => 12

/-- How far a participant has come. -/
def Stage.rank : Stage → Nat
  | .enter barrier => base barrier
  | .wait barrier => base barrier + 1
  | .leave barrier => base barrier + 2
  | .traverse => 3
  | .insert => 3
  | .count => 3
  | .release => 4
  | .readTuples => 5
  | .readVectors => 6
  | .setVectors => 7
  | .panicked => 7
  | .readParticipants => 11
  | .maintain => 11
  | .finished => 15

attribute [simp] Stage.base.eq_1 Stage.base.eq_2 Stage.base.eq_3 Stage.rank.eq_1 Stage.rank.eq_2
  Stage.rank.eq_3 Stage.rank.eq_4 Stage.rank.eq_5 Stage.rank.eq_6 Stage.rank.eq_7 Stage.rank.eq_8
  Stage.rank.eq_9 Stage.rank.eq_10 Stage.rank.eq_11 Stage.rank.eq_12 Stage.rank.eq_13
  Stage.rank.eq_14

namespace Participant

/-- Vectors that the participant has still to insert. -/
def pending (p : Participant) : Nat :=
  (if p.stage = .insert then p.left else 0) + p.tuples.sum

/-- Vectors that the participant has still to add to the shared counter. -/
def uncounted (p : Participant) : Nat :=
  (if p.stage = .insert ∨ p.stage = .count then p.store else 0) + p.tuples.sum

/-- One, if the participant has entered the barrier. -/
def entered (barrier : Fin 3) (p : Participant) : Nat :=
  if Stage.base barrier < p.stage.rank then 1 else 0

@[simp] theorem rank_pass (barrier : Fin 3) (p : Participant) :
    (p.pass barrier).stage.rank = Stage.base barrier + 3 := by
  fin_cases barrier <;> rfl

@[simp] theorem tuples_pass (barrier : Fin 3) (p : Participant) :
    (p.pass barrier).tuples = p.tuples := by
  fin_cases barrier <;> rfl

theorem stage_pass (barrier : Fin 3) (p : Participant) :
    (p.pass barrier).stage ≠ .insert ∧ (p.pass barrier).stage ≠ .count := by
  fin_cases barrier <;> constructor <;> intro same <;> cases same

variable {leader : Bool} {total leaves : Nat} {shared : Shared} {index : Index}
  {p : Participant} {moved : Shared × Index × Participant}
  (steps : p.step leader total leaves shared index = moved)

include steps

/-- Nobody goes back. -/
theorem rank_step : p.stage.rank ≤ moved.2.2.stage.rank := by
  subst steps
  fun_cases step <;> simp_all

/-- A vector is either inserted or still to be inserted. -/
theorem inserted_step :
    moved.2.1.inserted + moved.2.2.pending = index.inserted + p.pending := by
  subst steps
  fun_cases step <;>
    simp_all [pending, stage_pass]
  omega

/-- The counter grows by the vectors that are no longer uncounted. -/
theorem counted_step {counted : Nat} (known : shared.indexedVectors = counted % 2 ^ 64) :
    ∃ more, p.uncounted = more + moved.2.2.uncounted ∧
      moved.1.indexedVectors = (counted + more) % 2 ^ 64 := by
  subst steps
  fun_cases step
  case case11 counting =>
    exact ⟨p.store, by simp [uncounted, counting], by simp [known]⟩
  all_goals exact ⟨0, by simp_all [uncounted, stage_pass], by simp_all⟩

/-- The counter of a barrier counts those that have entered it. -/
theorem entered_step (barrier : Fin 3) :
    moved.1.barrierEnter barrier + p.entered barrier =
      shared.barrierEnter barrier + moved.2.2.entered barrier := by
  subst steps
  fun_cases step
  case case1 other entering =>
    -- the one step that increments a counter, and moves the participant past `other` only
    fin_cases barrier <;> fin_cases other <;> simp [entered, entering, Stage.base]
  case case2 other here _ _ | case4 other here _ _ | case6 other here =>
    fin_cases barrier <;> fin_cases other <;> simp [entered, here, Stage.base]
  all_goals fin_cases barrier <;> simp_all [entered, Stage.base]

/-- Who has left the scan behind has no tuple left. -/
theorem tuples_step (done : 3 < p.stage.rank → p.tuples = [])
    (after : 3 < moved.2.2.stage.rank) : moved.2.2.tuples = [] := by
  subst steps
  revert after
  fun_cases step
  case case1 other _ | case2 other _ _ _ | case4 other _ _ _ | case6 other _ =>
    fin_cases other <;> simp_all
  all_goals simp_all

/-- The leader goes on from a barrier when all have entered it. -/
theorem passed_step (barrier : Fin 3) (isLeader : leader = true)
    (after : Stage.base barrier + 1 < moved.2.2.stage.rank) :
    Stage.base barrier + 1 < p.stage.rank ∨ shared.barrierEnter barrier = total := by
  subst steps
  revert after
  fun_cases step
  case case1 other entering =>
    fin_cases barrier <;> fin_cases other <;> simp [entering]
  case case2 other waiting _ all =>
    fin_cases barrier <;> fin_cases other <;> simp_all
  case case6 other leaving =>
    fin_cases barrier <;> fin_cases other <;> simp [leaving]
  all_goals fin_cases barrier <;> simp_all

/-- Only the leader reaches the stage in which the statistic is written. -/
theorem setVectors_step (isWorker : leader = false) (before : p.stage ≠ .setVectors) :
    moved.2.2.stage ≠ .setVectors ∧ moved.2.1.indexedVectors = index.indexedVectors := by
  subst steps
  fun_cases step
  case case4 other _ _ _ | case6 other _ => fin_cases other <;> simp [pass]
  all_goals simp_all

/-- The leader gets past the stage in which the counter is read only by reading it. -/
theorem unread_step (isLeader : leader = true) (unread : p.stage.rank ≤ 6)
    (other : p.stage ≠ .readVectors) : moved.2.2.stage.rank ≤ 6 := by
  subst steps
  fun_cases step
  case case1 other _ | case2 other _ _ _ | case6 other _ => fin_cases other <;> simp_all
  all_goals simp_all

/-- The leader writes the value it has read, and does not read again. -/
theorem statistic_step {value : Nat} (isLeader : leader = true) (read : 6 < p.stage.rank)
    (same : p.indexedVectors = value)
    (stored : 7 < p.stage.rank →
      index.indexedVectors = some value ∧ value ≤ maxIndexedVectors) :
    moved.2.2.indexedVectors = value ∧
      (7 < moved.2.2.stage.rank →
        moved.2.1.indexedVectors = some value ∧ value ≤ maxIndexedVectors) := by
  subst steps
  fun_cases step
  case case1 other entering => fin_cases other <;> simp_all
  case case2 other waiting _ _ => fin_cases other <;> simp_all
  case case6 other leaving => fin_cases other <;> simp_all [pass]
  all_goals simp_all

end Participant

/-! ## What every run keeps -/

section Sums

variable (leaves : Nat) (s : State workers) (p : Fin (workers + 1))

@[simp] theorem State.participants_step_self :
    (s.step leaves p).participants p = (s.next leaves p).2.2 :=
  Function.update_self p _ s.participants

@[simp] theorem State.participants_step_ne {q : Fin (workers + 1)} (other : q ≠ p) :
    (s.step leaves p).participants q = s.participants q :=
  Function.update_of_ne other _ s.participants

/-- A sum over the participants changes by what the step changes of its participant. -/
theorem State.sum_step (value : Participant → Nat) :
    (∑ q, value ((s.step leaves p).participants q)) + value (s.participants p) =
      (∑ q, value (s.participants q)) + value (s.next leaves p).2.2 := by
  rw [← add_sum_erase _ _ (mem_univ p),
    ← add_sum_erase _ (fun q => value (s.participants q)) (mem_univ p),
    participants_step_self]
  have others : ∑ q ∈ univ.erase p, value ((s.step leaves p).participants q) =
      ∑ q ∈ univ.erase p, value (s.participants q) := by
    apply sum_congr rfl
    intro q member
    rw [participants_step_ne leaves s p (ne_of_mem_erase member)]
  omega

end Sums

namespace State

/-- Vectors that have still to be inserted. -/
def pending (s : State workers) : Nat := ∑ p, (s.participants p).pending

/-- Vectors that have still to be added to the shared counter. -/
def uncounted (s : State workers) : Nat := ∑ p, (s.participants p).uncounted

/-- The leader. -/
def leader (s : State workers) : Participant := s.participants 0

end State

/-- The invariant of the build. -/
structure Inv (input : Input workers) (s : State workers) : Prop where
  /-- The shared counter has what is not uncounted. -/
  counted : ∃ counted, counted + s.uncounted = input.total ∧
    s.shared.indexedVectors = counted % 2 ^ 64
  inserted : s.index.inserted + s.pending = input.total
  scanned : ∀ p, 3 < (s.participants p).stage.rank → (s.participants p).tuples = []
  entered : ∀ barrier,
    s.shared.barrierEnter barrier = ∑ p, (s.participants p).entered barrier
  /-- Where the leader has left the entrance of a barrier, all have entered it. -/
  passed : ∀ barrier, Stage.base barrier + 1 < s.leader.stage.rank →
    ∀ p, Stage.base barrier < (s.participants p).stage.rank
  worker : ∀ p, p ≠ 0 → (s.participants p).stage ≠ .setVectors

theorem Inv.start (input : Input workers) : Inv input input.start where
  counted := ⟨0, by simp [State.uncounted, Input.start, Participant.uncounted, Input.total], rfl⟩
  inserted := by simp [State.pending, Input.start, Participant.pending, Input.total]
  scanned p far := by simp [Input.start] at far
  entered barrier := by fin_cases barrier <;> simp [Input.start, Participant.entered]
  passed barrier far := by simp [State.leader, Input.start] at far
  worker p _ := by simp [Input.start]

section Step

variable {input : Input workers} {s : State workers}

/-- A property of each participant on its own is kept if the participant that steps
keeps it. -/
theorem forall_step (holds : Fin (workers + 1) → Participant → Prop)
    (before : ∀ q, holds q (s.participants q)) {leaves : Nat} {p : Fin (workers + 1)}
    (after : holds p (s.next leaves p).2.2) (q : Fin (workers + 1)) :
    holds q ((s.step leaves p).participants q) := by
  by_cases same : q = p
  · rw [same, State.participants_step_self]
    exact after
  · rw [State.participants_step_ne leaves s p same]
    exact before q

/-- All have entered when the counter says so. -/
theorem Inv.all_entered (inv : Inv input s) {barrier : Fin 3}
    (all : s.shared.barrierEnter barrier = workers + 1) (p : Fin (workers + 1)) :
    Stage.base barrier < (s.participants p).stage.rank := by
  by_contra outside
  have less : ∑ q, (s.participants q).entered barrier < ∑ _q : Fin (workers + 1), 1 := by
    apply sum_lt_sum
    · intro q _
      unfold Participant.entered
      split <;> omega
    · exact ⟨p, mem_univ p, by rw [Participant.entered, if_neg outside]; omega⟩
  rw [← inv.entered barrier, all, sum_const, card_univ, Fintype.card_fin] at less
  simp at less

theorem rank_le_step (leaves : Nat) (s : State workers) (p q : Fin (workers + 1)) :
    (s.participants q).stage.rank ≤ ((s.step leaves p).participants q).stage.rank := by
  apply forall_step fun q participant =>
    (s.participants q).stage.rank ≤ participant.stage.rank
  · intro q
    exact le_rfl
  · exact Participant.rank_step rfl

theorem Inv.passed_step (inv : Inv input s) (p : Fin (workers + 1)) (barrier : Fin 3)
    (far : Stage.base barrier + 1 < (s.step input.leaves p).leader.stage.rank)
    (q : Fin (workers + 1)) :
    Stage.base barrier < ((s.step input.leaves p).participants q).stage.rank := by
  apply lt_of_lt_of_le _ (rank_le_step _ s p q)
  by_cases isLeader : p = 0
  · rw [State.leader, isLeader, State.participants_step_self] at far
    cases Participant.passed_step rfl barrier (decide_eq_true rfl) far with
    | inl before => exact inv.passed barrier before q
    | inr all => exact inv.all_entered all q
  · rw [State.leader, State.participants_step_ne _ _ _ (Ne.symm isLeader)] at far
    exact inv.passed barrier far q

theorem Inv.step (inv : Inv input s) (p : Fin (workers + 1)) :
    Inv input (s.step input.leaves p) where
  counted := by
    rcases inv.counted with ⟨counted, total, known⟩
    rcases Participant.counted_step (Eq.refl (s.next input.leaves p)) known with
      ⟨more, moved, counter⟩
    apply Exists.intro (counted + more)
    apply And.intro _ counter
    have sums := s.sum_step input.leaves p Participant.uncounted
    unfold State.uncounted at *
    omega
  inserted := by
    have moved := Participant.inserted_step (Eq.refl (s.next input.leaves p))
    have sums := s.sum_step input.leaves p Participant.pending
    have total := inv.inserted
    simp only [State.pending, State.step] at *
    omega
  scanned := by
    apply forall_step fun _ participant =>
      3 < participant.stage.rank → participant.tuples = []
    · exact inv.scanned
    · exact Participant.tuples_step rfl (inv.scanned p)
  entered := by
    intro barrier
    have moved := Participant.entered_step (Eq.refl (s.next input.leaves p)) barrier
    have sums := s.sum_step input.leaves p (Participant.entered barrier)
    have entered := inv.entered barrier
    simp only [State.step] at *
    omega
  passed := inv.passed_step p
  worker := by
    apply forall_step fun q participant => q ≠ 0 → participant.stage ≠ .setVectors
    · exact inv.worker
    · intro isWorker
      exact (Participant.setVectors_step rfl (decide_eq_false isWorker)
        (inv.worker p isWorker)).1

/-- When the leader is done, everything has been inserted. -/
theorem Inv.inserted_of_finished (inv : Inv input s) (finished : s.leader.stage = .finished) :
    s.index.inserted = input.total := by
  have none : s.pending = 0 := by
    apply sum_eq_zero
    intro p _
    have far := inv.passed 1 (by rw [finished]; decide) p
    have scanned := inv.scanned p (lt_trans (by decide) far)
    unfold Participant.pending
    rw [scanned, if_neg]
    · rfl
    · intro inserting
      rw [inserting] at far
      exact absurd far (by decide)
  have total := inv.inserted
  rwa [none] at total

/-- The leader has read a value, and has written it or is about to. -/
structure Settled (value : Nat) (s : State workers) : Prop where
  read : 6 < s.leader.stage.rank
  same : s.leader.indexedVectors = value
  stored : 7 < s.leader.stage.rank →
    s.index.indexedVectors = some value ∧ value ≤ maxIndexedVectors

theorem Settled.step {value : Nat} (settled : Settled value s) (inv : Inv input s)
    (p : Fin (workers + 1)) : Settled value (s.step input.leaves p) := by
  have read := lt_of_lt_of_le settled.read (rank_le_step input.leaves s p 0)
  by_cases isLeader : p = 0
  · cases isLeader
    have next := Participant.statistic_step (Eq.refl (s.next input.leaves 0))
      (decide_eq_true rfl) settled.read settled.same settled.stored
    have leader : (s.step input.leaves 0).leader = (s.next input.leaves 0).2.2 :=
      State.participants_step_self _ _ _
    apply Settled.mk read
    · rw [leader]
      exact next.1
    · rw [leader]
      exact next.2
  · have kept := (Participant.setVectors_step (Eq.refl (s.next input.leaves p))
      (decide_eq_false isLeader) (inv.worker p isLeader)).2
    have leader : (s.step input.leaves p).leader = s.leader :=
      State.participants_step_ne _ _ _ (Ne.symm isLeader)
    apply Settled.mk read
    · rw [leader]
      exact settled.same
    · rw [leader]
      intro far
      exact ⟨kept.trans (settled.stored far).1, (settled.stored far).2⟩

theorem settled_of_read (reading : s.leader.stage = .readVectors) (leaves : Nat) :
    Settled s.shared.indexedVectors (s.step leaves 0) := by
  have leader : (s.step leaves 0).leader =
      { s.leader with stage := .setVectors, indexedVectors := s.shared.indexedVectors } := by
    have reading' : (s.participants 0).stage = .readVectors := reading
    rw [State.leader, State.participants_step_self, State.next, Participant.step, reading']
    rfl
  constructor
  · rw [leader, Stage.rank]
    exact Nat.lt_add_one 6
  · rw [leader]
  · rw [leader, Stage.rank]
    intro far
    exact absurd far (lt_irrefl 7)

end Step

/-! ## The statistic -/

/-- When the leader reads the shared counter, everything has been counted. -/
def CountedWhenRead (s : State workers) (p : Fin (workers + 1)) : Prop :=
  p = 0 → s.leader.stage = .readVectors → s.uncounted = 0

section Statistic

variable {input : Input workers} {s : State workers}

theorem parallelBuild_step (p : Fin (workers + 1)) :
    ((parallelBuild input).step s p).1 = s.step input.leaves p := rfl

theorem Inv.run (inv : Inv input s) (schedule : List (Fin (workers + 1))) :
    Inv input ((parallelBuild input).run s schedule) :=
  run_invariant (fun _ p inv => inv.step p) inv schedule

theorem Settled.run {value : Nat} (settled : Settled value s) (inv : Inv input s)
    (schedule : List (Fin (workers + 1))) :
    Settled value ((parallelBuild input).run s schedule) ∧
      (parallelBuild input).Along CountedWhenRead s schedule := by
  induction schedule generalizing s with
  | nil => exact ⟨settled, trivial⟩
  | cons p schedule ih =>
    have rest := ih (settled.step inv p) (inv.step p)
    apply And.intro rest.1
    apply And.intro _ rest.2
    intro _ reading
    have read := settled.read
    rw [reading] at read
    exact absurd read (by decide)

/-- The value that ends up in the meta page is the counter at the leader's read. -/
theorem Inv.statistic_of_read (inv : Inv input s) (reading : s.leader.stage = .readVectors)
    {schedule : List (Fin (workers + 1))}
    (finished : ((parallelBuild input).run (s.step input.leaves 0) schedule).leader.stage =
      .finished) :
    ((parallelBuild input).run (s.step input.leaves 0) schedule).index.indexedVectors =
        some input.total ↔
      s.uncounted = 0 ∧ input.total < 2 ^ 64 := by
  have settled := ((settled_of_read reading input.leaves).run (inv.step 0) schedule).1
  rcases inv.counted with ⟨counted, total, known⟩
  rcases settled.stored (by rw [finished]; decide) with ⟨stored, small⟩
  rw [stored, Option.some_inj, known]
  constructor
  · intro same
    constructor <;> omega
  · intro all
    omega

theorem Inv.statistic (inv : Inv input s) (unread : s.leader.stage.rank ≤ 6)
    (schedule : List (Fin (workers + 1)))
    (finished : ((parallelBuild input).run s schedule).leader.stage = .finished) :
    ((parallelBuild input).run s schedule).index.indexedVectors = some input.total ↔
      (parallelBuild input).Along CountedWhenRead s schedule ∧ input.total < 2 ^ 64 := by
  induction schedule generalizing s with
  | nil =>
    rw [run_nil] at finished
    rw [finished] at unread
    exact absurd unread (by decide)
  | cons p schedule ih =>
    rw [run_cons, parallelBuild_step] at finished ⊢
    rw [along_cons, parallelBuild_step]
    by_cases reads : p = 0 ∧ s.leader.stage = .readVectors
    · rcases reads with ⟨rfl, reading⟩
      have along := ((settled_of_read reading input.leaves).run (inv.step 0) schedule).2
      have condition : CountedWhenRead s 0 ↔ s.uncounted = 0 :=
        ⟨fun counted => counted rfl reading, fun none _ _ => none⟩
      rw [inv.statistic_of_read reading finished, condition, and_iff_left along]
    · have trivially : CountedWhenRead s p := fun isLeader reading =>
        absurd ⟨isLeader, reading⟩ reads
      rw [and_iff_right trivially]
      apply ih (inv.step p) _ finished
      by_cases isLeader : p = 0
      · cases isLeader
        exact Participant.unread_step rfl (decide_eq_true rfl) unread
          fun reading => reads ⟨rfl, reading⟩
      · rw [State.leader, State.participants_step_ne _ _ _ (Ne.symm isLeader)]
        exact unread

end Statistic

/-- A finished build has stored the number of inserted vectors if and only if everything
had been counted when the leader read the shared counter, and the counter has not
overflowed. -/
theorem parallelBuild_indexedVectors (input : Input workers)
    (schedule : List (Fin (workers + 1)))
    (finished : ((parallelBuild input).run input.start schedule).leader.stage = .finished) :
    ((parallelBuild input).run input.start schedule).index.indexedVectors =
        some ((parallelBuild input).run input.start schedule).index.inserted ↔
      (parallelBuild input).Along CountedWhenRead input.start schedule ∧
        input.total < 2 ^ 64 := by
  have start := Inv.start input
  rw [(start.run schedule).inserted_of_finished finished]
  exact start.statistic (Nat.zero_le 6) schedule finished

/-- A worker with one tuple of one vector, and a leader without tuples. -/
def oneTuple : Input 1 where
  tuples p := if p = 0 then [] else [1]
  purchases _ := []
  leaves := 1

/-- The leader reads the counter and waits before the worker has started. -/
def leaderAhead : List (Fin 2) :=
  [0, 1] ++ List.replicate 8 0 ++ List.replicate 10 1 ++ List.replicate 6 0 ++
    List.replicate 5 1 ++ List.replicate 2 0

/-- The leader reads the counter after the worker has counted its tuple. -/
def leaderBehind : List (Fin 2) :=
  [0, 1] ++ List.replicate 2 0 ++ List.replicate 10 1 ++ List.replicate 12 0 ++
    List.replicate 5 1 ++ List.replicate 2 0

/-- One vector has been inserted, and the statistic is zero. -/
theorem parallelBuild_leaderAhead :
    ((parallelBuild oneTuple).run oneTuple.start leaderAhead).leader.stage = .finished ∧
      ((parallelBuild oneTuple).run oneTuple.start leaderAhead).index.inserted = 1 ∧
      ((parallelBuild oneTuple).run oneTuple.start leaderAhead).index.indexedVectors =
        some 0 := by
  decide

theorem parallelBuild_leaderBehind :
    ((parallelBuild oneTuple).run oneTuple.start leaderBehind).index.indexedVectors =
        some ((parallelBuild oneTuple).run oneTuple.start leaderBehind).index.inserted ↔
      (parallelBuild oneTuple).Along CountedWhenRead oneTuple.start leaderBehind ∧
        oneTuple.total < 2 ^ 64 :=
  parallelBuild_indexedVectors oneTuple leaderBehind (by decide)

end VectorChord.Vchordrq.ParallelBuild
