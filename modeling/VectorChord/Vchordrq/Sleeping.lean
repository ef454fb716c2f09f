import VectorChord.Vchordrq.BuildPhases

/-!
# Sleepers of the parallel build

Waiting at a barrier, in the steps that it takes.  A participant looks at its condition under
the spin lock and calls `ConditionVariableSleep` if it does not hold.  The first call puts the
participant on the list of the condition variable and returns, so that the condition is looked
at once more; a later one lasts until a broadcast has taken the participant off the list, and
puts it on the list again.  Who changes a counter or a flag broadcasts in a step of its own, so
that the condition may come to hold before, between and after all of these.

Every step is one of the machine without sleep or leaves its state, and no wakeup is lost.
-/

namespace VectorChord.Vchordrq.ParallelBuild

open Transition Participant State Function

/-- The condition variables of `VchordrqShared`. -/
inductive Condvar where
  | enter (barrier : Fin 3)
  | leave (barrier : Fin 3)
  deriving DecidableEq, Repr

/-- What is broadcast after a step. -/
def Stage.signals : Stage → Option Condvar
  | .enter barrier => some (.enter barrier)
  | .leave barrier => some (.leave barrier)
  | _ => none

variable {workers : Nat}

/-- The condition variable on which a participant waits: the leader for the others to come, the
workers for the leader. -/
def condvar (p : Fin (workers + 1)) (barrier : Fin 3) : Condvar :=
  if p.val = 0 then .enter barrier else .leave barrier

/-- The condition for which a participant waits. -/
def State.opens (s : State workers) (p : Fin (workers + 1)) (barrier : Fin 3) : Bool :=
  if p.val = 0 then s.shared.barrierEnter barrier = workers + 1
  else s.shared.barrierLeave barrier

/-- A build with its sleepers. -/
structure Sleepers (workers : Nat) where
  build : State workers
  /-- The broadcast that a participant is about to make. -/
  broadcast : Fin (workers + 1) → Option Condvar
  /-- The participant calls `ConditionVariableSleep`. -/
  sleeping : Fin (workers + 1) → Bool
  /-- It is not its first call since `ConditionVariableCancelSleep`. -/
  prepared : Fin (workers + 1) → Bool
  /-- The list of each condition variable. -/
  listed : Condvar → Fin (workers + 1) → Bool

namespace Sleepers

/-- A step of participant `p`. -/
def step (leaves : Nat) (s : Sleepers workers) (p : Fin (workers + 1)) : Sleepers workers :=
  match s.broadcast p with
  | some signal =>
    -- `ConditionVariableBroadcast`
    { s with
      broadcast := update s.broadcast p none
      listed := update s.listed signal fun _ => false }
  | none =>
    match (s.build.participants p).stage with
    | .wait barrier =>
      let list := s.listed (condvar p barrier)
      if s.sleeping p then
        -- `ConditionVariableSleep`
        if s.prepared p && list p then s
        else
          { s with
            sleeping := update s.sleeping p false
            prepared := update s.prepared p true
            listed := update s.listed (condvar p barrier) (update list p true) }
      else if s.build.opens p barrier then
        -- `ConditionVariableCancelSleep`, which takes nobody else off the list
        { s with
          build := s.build.step leaves p
          prepared := update s.prepared p false
          listed := update s.listed (condvar p barrier) (update list p false) }
      else { s with sleeping := update s.sleeping p true }
    | stage =>
      { s with
        build := s.build.step leaves p
        broadcast := update s.broadcast p stage.signals }

/-- Nobody sleeps at the start. -/
def start (input : Input workers) : Sleepers workers where
  build := input.start
  broadcast _ := none
  sleeping _ := false
  prepared _ := false
  listed _ _ := false

end Sleepers

/-- The build with its sleepers under a schedule. -/
def sleepingBuild (input : Input workers) :
    Machine (Sleepers workers) (Fin (workers + 1)) Unit where
  step s p := (s.step input.leaves p, ())

/-! ## What one step does -/

namespace Participant

/-- A counter changes when somebody enters. -/
theorem barrierEnter_step_of_ne {leader : Bool} {total leaves : Nat} {shared : Shared}
    {index : Index} {p : Participant} {barrier : Fin 3} (other : p.stage ≠ .enter barrier) :
    (p.step leader total leaves shared index).1.barrierEnter barrier =
      shared.barrierEnter barrier := by
  fun_cases Participant.step
  case case1 entered entering =>
    apply update_of_ne
    rintro rfl
    exact other entering
  all_goals rfl

end Participant

variable {input : Input workers} {leaves : Nat}

/-- A condition comes to hold in a step that a broadcast follows. -/
theorem State.opens_step {s : State workers} {p q : Fin (workers + 1)} {barrier : Fin 3}
    (opened : (s.step leaves q).opens p barrier = true) :
    s.opens p barrier = true ∨
      (s.participants q).stage.signals = some (condvar p barrier) := by
  unfold opens condvar at *
  split
  next isLeader =>
    rw [if_pos isLeader] at opened
    by_cases entering : (s.participants q).stage = .enter barrier
    · right
      rw [entering]
      rfl
    · left
      rw [← opened]
      congr 2
      exact (barrierEnter_step_of_ne entering).symm
  next isWorker =>
    rw [if_neg isWorker] at opened
    rcases (barrierLeave_step rfl barrier).mp opened with before | leaving
    · exact .inl before
    · right
      rw [leaving]
      rfl

/-- Who waits for a condition that does not hold stays where it is. -/
theorem State.step_of_closed {s : State workers} {p : Fin (workers + 1)} {barrier : Fin 3}
    (waiting : (s.participants p).stage = .wait barrier) (closed : s.opens p barrier = false) :
    (s.step leaves p).participants p = s.participants p := by
  rw [participants_step_self, State.next, Participant.step, waiting]
  unfold opens at closed
  by_cases isLeader : p = 0
  · simp_all
  · simp_all

namespace Sleepers

variable {s : Sleepers workers} {p q : Fin (workers + 1)} {barrier : Fin 3}

/-- A step is one of the machine without sleep, or leaves its state. -/
theorem build_step (leaves : Nat) (s : Sleepers workers) (p : Fin (workers + 1)) :
    (s.step leaves p).build = s.build.step leaves p ∨ (s.step leaves p).build = s.build := by
  unfold step
  split
  next => exact .inr rfl
  next =>
    split
    next =>
      dsimp only
      split
      next =>
        right
        split <;> rfl
      next => split <;> simp
    next => exact .inl rfl

/-- Only who waits sleeps.  If the condition of a sleeper on the list holds, somebody is about to
take it off the list. -/
structure Wakes (s : Sleepers workers) : Prop where
  waits : ∀ p, s.sleeping p = true → ∃ barrier, (s.build.participants p).stage = .wait barrier
  promised : ∀ p barrier, (s.build.participants p).stage = .wait barrier →
    s.sleeping p = true → s.listed (condvar p barrier) p = true → s.build.opens p barrier = true →
    ∃ q, s.broadcast q = some (condvar p barrier)

theorem wakes_start (input : Input workers) : (start input).Wakes where
  waits p sleeping := by cases sleeping
  promised p barrier _ sleeping := by cases sleeping

/-- A broadcast takes all off its list. -/
theorem Wakes.broadcast (wakes : s.Wakes) {signal : Condvar}
    (pending : s.broadcast q = some signal) :
    Wakes { s with
      broadcast := update s.broadcast q none
      listed := update s.listed signal fun _ => false } where
  waits := wakes.waits
  promised := by
    intro p barrier waiting sleeping listed opened
    by_cases same : condvar p barrier = signal
    · simp [same] at listed
    · have before : s.listed (condvar p barrier) p = true := by
        simpa [update_of_ne same] using listed
      obtain ⟨r, promise⟩ := wakes.promised p barrier waiting sleeping before opened
      have other : r ≠ q := by
        rintro rfl
        exact same (Option.some.inj (promise.symm.trans pending))
      exact ⟨r, (update_of_ne other _ _).trans promise⟩

/-- What a step of `q` does that is no broadcast: `q` falls asleep if its condition does not
hold, and whoever may go on by the step will be told. -/
structure Moves (q : Fin (workers + 1)) (s s' : Sleepers workers) : Prop where
  own : s'.sleeping q = true → ∃ barrier, (s'.build.participants q).stage = .wait barrier ∧
    s'.build.opens q barrier = false
  stage : ∀ p, p ≠ q → s'.build.participants p = s.build.participants p
  sleeping : ∀ p, p ≠ q → s'.sleeping p = s.sleeping p
  listed : ∀ p, p ≠ q → ∀ signal, s'.listed signal p = s.listed signal p
  opened : ∀ p barrier, s'.build.opens p barrier = true →
    s.build.opens p barrier = true ∨ s'.broadcast q = some (condvar p barrier)
  kept : ∀ r signal, s.broadcast r = some signal → s'.broadcast r = some signal

theorem Wakes.moves (wakes : s.Wakes) {s' : Sleepers workers} (moves : Moves q s s') :
    s'.Wakes where
  waits := by
    intro p sleeping
    by_cases same : p = q
    · subst same
      obtain ⟨barrier, waiting, _⟩ := moves.own sleeping
      exact ⟨barrier, waiting⟩
    · rw [moves.sleeping p same] at sleeping
      rw [moves.stage p same]
      exact wakes.waits p sleeping
  promised := by
    intro p barrier waiting sleeping listed opened
    by_cases same : p = q
    · subst same
      obtain ⟨other, waiting', closed⟩ := moves.own sleeping
      cases waiting.symm.trans waiting'
      rw [closed] at opened
      cases opened
    · rw [moves.stage p same] at waiting
      rw [moves.sleeping p same] at sleeping
      rw [moves.listed p same] at listed
      rcases moves.opened p barrier opened with before | told
      · obtain ⟨r, promise⟩ := wakes.promised p barrier waiting sleeping listed before
        exact ⟨r, moves.kept r _ promise⟩
      · exact ⟨q, told⟩

/-- Putting a participant on a list, or taking it off, leaves the others where they are. -/
theorem listed_update {list : Condvar → Fin (workers + 1) → Bool} {signal : Condvar} {member : Bool}
    (other : p ≠ q) (signal' : Condvar) :
    update list signal (update (list signal) q member) signal' p = list signal' p := by
  by_cases same : signal' = signal
  · rw [same, update_self, update_of_ne other]
  · rw [update_of_ne same]

/-- Without a broadcast to make, a participant moves or sleeps on. -/
theorem Wakes.moves_step (wakes : s.Wakes) (calm : s.broadcast q = none) :
    s.step leaves q = s ∨ Moves q s (s.step leaves q) := by
  unfold step
  rw [calm]
  dsimp only
  split
  next barrier waiting =>
    split
    next =>
      split
      next => exact .inl rfl
      next =>
        right
        constructor
        · intro asleep
          simp at asleep
        · exact fun _ _ => rfl
        · exact fun p other => update_of_ne other _ _
        · exact fun p other => listed_update other
        · exact fun _ _ opened => .inl opened
        · exact fun _ _ pending => pending
    next awake =>
      right
      split
      next opened =>
        constructor
        · exact fun asleep => absurd asleep awake
        · exact fun p other => participants_step_ne _ _ _ other
        · exact fun _ _ => rfl
        · exact fun p other => listed_update other
        · intro p other opened
          rcases opens_step opened with before | told
          · exact .inl before
          · rw [waiting] at told
            cases told
        · exact fun _ _ pending => pending
      next closed =>
        constructor
        · exact fun _ => ⟨barrier, waiting, Bool.eq_false_iff.mpr closed⟩
        · exact fun _ _ => rfl
        · exact fun p other => update_of_ne other _ _
        · exact fun _ _ _ => rfl
        · exact fun _ _ opened => .inl opened
        · exact fun _ _ pending => pending
  next elsewhere =>
    right
    constructor
    · intro asleep
      obtain ⟨barrier, waiting⟩ := wakes.waits q asleep
      exact absurd waiting (elsewhere barrier)
    · exact fun p other => participants_step_ne _ _ _ other
    · exact fun _ _ => rfl
    · exact fun _ _ _ => rfl
    · intro p barrier opened
      exact (opens_step opened).imp_right (update_self _ _ _).trans
    · intro r signal pending
      have other : r ≠ q := by
        rintro rfl
        rw [calm] at pending
        cases pending
      exact (update_of_ne other _ _).trans pending

theorem Wakes.step (wakes : s.Wakes) (leaves : Nat) (q : Fin (workers + 1)) :
    (s.step leaves q).Wakes := by
  cases pending : s.broadcast q with
  | some signal =>
    have next := wakes.broadcast pending
    unfold Sleepers.step
    rw [pending]
    exact next
  | none =>
    rcases wakes.moves_step pending with same | moves
    · rw [same]
      exact wakes
    · exact wakes.moves moves

/-! ## Progress -/

/-- Where nobody can go on, nobody can without sleep: there is no broadcast to be made, so no
sleeper has missed its condition. -/
theorem Wakes.stuck_build (wakes : s.Wakes) (stuck : ∀ p, s.step leaves p = s)
    (p : Fin (workers + 1)) :
    (s.build.step leaves p).participants p = s.build.participants p := by
  have calm : ∀ p, s.broadcast p = none := by
    intro p
    by_contra some
    obtain ⟨signal, pending⟩ := Option.ne_none_iff_exists'.mp some
    have after := congrArg (fun s => s.broadcast p) (stuck p)
    simp [Sleepers.step, pending] at after
  have same := stuck p
  unfold Sleepers.step at same
  rw [calm p] at same
  dsimp only at same
  split at same
  next barrier waiting =>
    split at same
    next asleep =>
      split at same
      next blocked =>
        apply step_of_closed waiting
        by_contra opened
        obtain ⟨q, promise⟩ := wakes.promised p barrier waiting asleep
          (Bool.and_eq_true_iff.mp blocked).2 (Bool.not_eq_false _ ▸ opened)
        rw [calm q] at promise
        cases promise
      next =>
        have after := congrArg (fun s => s.sleeping p) same
        simp [asleep] at after
    next =>
      split at same
      next => exact congrArg (fun s => s.build.participants p) same
      next closed => exact step_of_closed waiting (Bool.eq_false_iff.mpr closed)
  next => exact congrArg (fun s => s.build.participants p) same

theorem wakes_run (input : Input workers) (schedule : List (Fin (workers + 1))) :
    ((sleepingBuild input).run (start input) schedule).Wakes :=
  Machine.run_invariant (fun _ p wakes => wakes.step input.leaves p) (wakes_start input) schedule

end Sleepers

/-- The build never gets stuck: in every state that any schedule leads to, somebody can go on,
unless all are done or the leader has panicked.  A sleeper on the list of its condition variable
whose condition holds is about to be woken, and sleep adds no state to the build. -/
theorem sleepingBuild_progress (input : Input workers) (schedule : List (Fin (workers + 1))) :
    let s := (sleepingBuild input).run (Sleepers.start input) schedule
    ((∃ p, s.step input.leaves p ≠ s) ∨
      (∃ p, (s.build.participants p).stage = .panicked) ∨
      ∀ p, (s.build.participants p).stage = .finished) ∧
    (∀ p barrier, (s.build.participants p).stage = .wait barrier → s.sleeping p = true →
      s.listed (condvar p barrier) p = true → s.build.opens p barrier = true →
      ∃ q, s.broadcast q = some (condvar p barrier)) ∧
    ∃ steps, s.build = (parallelBuild input).run input.start steps := by
  intro s
  have wakes : s.Wakes := Sleepers.wakes_run input schedule
  obtain ⟨steps, reached⟩ : ∃ steps, s.build = (parallelBuild input).run input.start steps :=
    Machine.run_stutter Sleepers.build (Sleepers.build_step input.leaves) _ schedule
  refine ⟨?_, wakes.promised, steps, reached⟩
  by_cases stuck : ∀ p, s.step input.leaves p = s
  · have below := parallelBuild_progress input steps
    rw [← reached] at below
    rcases below with ⟨p, moves⟩ | rest
    · exact absurd (wakes.stuck_build stuck p) moves
    · exact .inr rest
  · exact .inl (not_forall.mp stuck)

/-- A worker that has come first sleeps on the list of the leader's flag. -/
example :
    let s := (sleepingBuild oneTuple).run (Sleepers.start oneTuple) [1, 1, 1, 1, 1]
    s.sleeping 1 = true ∧ s.prepared 1 = true ∧ s.listed (.leave 0) 1 = true := by
  decide

end VectorChord.Vchordrq.ParallelBuild
