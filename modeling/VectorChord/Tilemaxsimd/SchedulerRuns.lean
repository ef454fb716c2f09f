import VectorChord.Tilemaxsimd.Quanta

/-!
# Runs of the scheduler

Every request that was delivered is still to be received, waits in the queue, or its
connection is closed: it was sent its response, or its peer was gone.  The quanta of a
request that waits follow each other and have the results that it carries.
-/

namespace VectorChord.Tilemaxsimd

open Collections Transition List

variable {ρ σ : Type}

/-! ## What was done on a connection -/

/-- The responses on a connection. -/
def responses (log : List (Action σ)) (connection : Nat) : List (Response σ) :=
  log.filterMap fun
    | .sent other response => if other = connection then some response else none
    | .quantum .. | .disconnected _ => none

/-- A quantum and what the engine has returned for it. -/
structure Quantum (σ : Type) where
  first : Nat
  last : Nat
  outcome : Except String (List (Nat × σ))

/-- The quanta of a connection. -/
def quanta (log : List (Action σ)) (connection : Nat) : List (Quantum σ) :=
  log.filterMap fun
    | .quantum other first last outcome =>
      if other = connection then some ⟨first, last, outcome⟩ else none
    | .sent .. | .disconnected _ => none

/-- The connections that are done with. -/
def closed (log : List (Action σ)) : List Nat :=
  log.filterMap fun
    | .sent connection _ => some connection
    | .disconnected connection => some connection
    | .quantum .. => none

section

variable {log : List (Action σ)} {connection : Nat}

theorem responses_append (log actions : List (Action σ)) (connection : Nat) :
    responses (log ++ actions) connection =
      responses log connection ++ responses actions connection :=
  filterMap_append

theorem quanta_append (log actions : List (Action σ)) (connection : Nat) :
    quanta (log ++ actions) connection = quanta log connection ++ quanta actions connection :=
  filterMap_append

theorem closed_append (log actions : List (Action σ)) :
    closed (log ++ actions) = closed log ++ closed actions :=
  filterMap_append

/-- A connection was closed by its responses or by its peer. -/
theorem count_closed (log : List (Action σ)) (connection : Nat) :
    (responses log connection).length ≤ (closed log).count connection ∧
      (Action.disconnected connection ∉ log →
        (closed log).count connection = (responses log connection).length) := by
  induction log with
  | nil => exact ⟨le_refl _, fun _ => rfl⟩
  | cons action log ih =>
    have rest : Action.disconnected connection ∉ action :: log →
        (closed log).count connection = (responses log connection).length :=
      fun absent => ih.2 fun member => absent (mem_cons_of_mem _ member)
    cases action with
    | sent other response =>
      have first : closed (.sent other response :: log) = other :: closed log := rfl
      rw [first]
      by_cases here : other = connection
      · have more : responses (.sent other response :: log) connection =
            response :: responses log connection := filterMap_cons_some (if_pos here)
        subst here
        rw [more, count_cons_self, length_cons]
        exact ⟨Nat.succ_le_succ ih.1, fun absent => congrArg _ (rest absent)⟩
      · have same : responses (.sent other response :: log) connection =
            responses log connection := filterMap_cons_none (if_neg here)
        rw [same, count_cons_of_ne here]
        exact ⟨ih.1, rest⟩
    | quantum other start stop outcome => exact ⟨ih.1, rest⟩
    | disconnected other =>
      have first : closed (.disconnected other :: log) = other :: closed log := rfl
      have same : responses (.disconnected other :: log) connection =
          responses log connection := rfl
      rw [first, same]
      by_cases here : other = connection
      · subst here
        rw [count_cons_self]
        refine ⟨Nat.le_succ_of_le ih.1, fun absent => ?_⟩
        exact absurd mem_cons_self absent
      · rw [count_cons_of_ne here]
        exact ⟨ih.1, rest⟩

end

/-! ## Progress of a request -/

/-- Quanta that follow each other from the first candidate on, up to an index, and their
results. -/
inductive Covers (config : SchedulerConfig ρ) (request : Request) :
    List (Quantum σ) → Nat → List (Nat × σ) → Prop
  | nil : Covers config request [] 0 []
  | snoc {front : List (Quantum σ)} {first last : Nat} {results scores : List (Nat × σ)}
      (covers : Covers config request front first results)
      (permits : config.Permits request first last)
      (listed : scores.map Prod.fst =
        (candidatesBetween request.candidates first last).map Descriptor.candidateId) :
      Covers config request (front ++ [⟨first, last, .ok scores⟩]) last (results ++ scores)

/-- Quanta of which only the last may have failed. -/
def Cut (config : SchedulerConfig ρ) (request : Request) (quanta : List (Quantum σ)) : Prop :=
  ∃ front next results, Covers config request front next results ∧
    (quanta = front ∨ ∃ last error, quanta = front ++ [⟨next, last, .error error⟩] ∧
      config.Permits request next last)

/-- The request of a work is that of its connection, and its results are those of the
quanta so far. -/
structure Progress (config : SchedulerConfig ρ) (delivered : List Delivery)
    (log : List (Action σ)) (work : Work σ) : Prop where
  request : ∃ delivery, delivered[work.connection]? = some delivery ∧
    work.request = delivery.request
  covers : Covers config work.request (quanta log work.connection) work.nextCandidate work.results

/-- A success has the results of all candidates. -/
def Answered (config : SchedulerConfig ρ) (delivered : List Delivery) (log : List (Action σ))
    (connection : Nat) : Response σ → Prop
  | .success version requestId results => ∃ delivery, delivered[connection]? = some delivery ∧
      version = delivery.request.protocolVersion ∧ requestId = delivery.request.requestId ∧
      Covers config delivery.request (quanta log connection)
        delivery.request.candidates.length results
  | .failure .. => True

namespace SchedulerState

/-- The requests that are not done with. -/
def works (self : SchedulerState ρ σ) : List (Work σ) :=
  self.stream ++ self.queue.pending.map Scheduled.payload

/-- What holds between and within turns.  Some work is in the hands of the loop. -/
structure Inv (config : SchedulerConfig ρ) (delivered : List Delivery) (hand : List (Work σ))
    (state : SchedulerState ρ σ) : Prop where
  partition : ((hand ++ state.works).map Work.connection ++ closed state.log).Perm
    (List.range delivered.length)
  progress : ∀ work ∈ hand ++ state.works, Progress config delivered state.log work
  unfinished : ∀ work ∈ state.works,
    work.nextCandidate = 0 ∨ work.nextCandidate < work.request.candidates.length
  answered : ∀ connection, ∀ response ∈ responses state.log connection,
    Answered config delivered state.log connection response
  cut : ∀ (connection : Nat) (delivery : Delivery), delivered[connection]? = some delivery →
    Cut config delivery.request (quanta state.log connection)
  ended : state.channelOpen = false → state.stream = []

variable {config : SchedulerConfig ρ} {delivered : List Delivery} {hand : List (Work σ)}
    {state : SchedulerState ρ σ} {work : Work σ}

namespace Inv

/-- The connection of a work is neither that of another one nor closed. -/
theorem apart (inv : Inv config delivered (work :: hand) state) :
    (∀ other ∈ hand ++ state.works, other.connection ≠ work.connection) ∧
      work.connection ∉ closed state.log := by
  have distinct := inv.partition.nodup_iff.mpr nodup_range
  have first := (nodup_cons.mp distinct).1
  constructor
  · intro other member equal
    apply first
    rw [← equal]
    exact mem_append_left _ (mem_map_of_mem member)
  · intro member
    exact first (mem_append_right _ member)

variable {connection : Nat} {response : Response σ} {actions : List (Action σ)}

variable {log : List (Action σ)}

/-- A response on a connection closes it. -/
theorem mem_closed (member : response ∈ responses log connection) : connection ∈ closed log := by
  have some := length_pos_of_mem member
  exact count_pos_iff.mp (lt_of_lt_of_le some (count_closed log connection).1)

/-- The state changes, but no work and nothing that was done. -/
theorem congr {state' : SchedulerState ρ σ} {hand' : List (Work σ)}
    (inv : Inv config delivered hand state)
    (same : (hand' ++ state'.works).Perm (hand ++ state.works))
    (log : state'.log = state.log) (unfinished : ∀ work ∈ state'.works,
      work.nextCandidate = 0 ∨ work.nextCandidate < work.request.candidates.length)
    (ended : state'.channelOpen = false → state'.stream = []) :
    Inv config delivered hand' state' where
  partition := by
    rw [log]
    exact ((same.map _).append_right _).trans inv.partition
  progress work member := by
    rw [log]
    exact inv.progress work (same.mem_iff.mp member)
  unfinished := unfinished
  answered := by
    rw [log]
    exact inv.answered
  cut := by
    rw [log]
    exact inv.cut
  ended := ended

variable {other : Nat}

/-- Actions on the connection of a work leave the other connections alone. -/
theorem quanta_of_ne (none : ∀ other ≠ connection, quanta actions other = [])
    (different : other ≠ connection) : quanta (log ++ actions) other = quanta log other := by
  rw [quanta_append, none other different, append_nil]

section

variable (inv : Inv config delivered (work :: hand) state)

include inv

section

variable (none : ∀ other ≠ work.connection, quanta actions other = [])

include none

/-- What was answered before stays so. -/
theorem answered_append (member : response ∈ responses state.log connection) :
    Answered config delivered (state.log ++ actions) connection response := by
  have different : connection ≠ work.connection := by
    rintro rfl
    exact inv.apart.2 (mem_closed member)
  have old := inv.answered connection response member
  cases response with
  | success version requestId results =>
    unfold Answered at old ⊢
    rw [quanta_of_ne none different]
    exact old
  | failure => trivial

/-- The other works go on as before. -/
theorem progress_append {other : Work σ}
    (member : other ∈ hand ++ state.works) :
    Progress config delivered (state.log ++ actions) other := by
  have before := inv.progress other (mem_cons_of_mem _ member)
  refine ⟨before.request, ?_⟩
  rw [quanta_of_ne none (inv.apart.1 other member)]
  exact before.covers

theorem cut_append (here : Cut config work.request (quanta (state.log ++ actions) work.connection))
    (connection : Nat) (delivery : Delivery) (known : delivered[connection]? = some delivery) :
    Cut config delivery.request (quanta (state.log ++ actions) connection) := by
  by_cases same : connection = work.connection
  · subst same
    rcases inv.progress work mem_cons_self with ⟨⟨delivery', known', request⟩, _⟩
    rw [known] at known'
    cases known'
    rw [← request]
    exact here
  · rw [quanta_of_ne none same]
    exact inv.cut connection delivery known

end

/-- A connection is closed: nothing happens on it any more. -/
theorem close (closes : closed actions = [work.connection])
    (none : ∀ other ≠ work.connection, quanta actions other = [])
    (here : Cut config work.request (quanta (state.log ++ actions) work.connection))
    (response : ∀ connection, ∀ response ∈ responses actions connection,
      Answered config delivered (state.log ++ actions) connection response) :
    Inv config delivered hand { state with log := state.log ++ actions } where
  partition := by
    rw [closed_append, closes, ← append_assoc]
    exact (perm_append_singleton _ _).trans inv.partition
  progress other member := inv.progress_append none member
  unfinished := inv.unfinished
  answered connection answer member := by
    rw [responses_append] at member
    rcases mem_append.mp member with before | new
    · exact inv.answered_append none before
    · exact response connection answer new
  cut := inv.cut_append none here
  ended := inv.ended

/-- The quanta of a work are as they should be. -/
theorem cut_work :
    Cut config work.request (quanta state.log work.connection) :=
  ⟨_, _, _, (inv.progress work mem_cons_self).covers, .inl rfl⟩

end

theorem eq_of_mem_responses_singleton {answer : Response σ}
    (member : answer ∈ responses [.sent connection response] other) :
    connection = other ∧ answer = response := by
  rcases mem_filterMap.mp member with ⟨action, inside, found⟩
  cases mem_singleton.mp inside
  dsimp only at found
  split at found
  next here =>
    cases found
    exact ⟨here, rfl⟩
  next => cases found

section

variable (inv : Inv config delivered (work :: hand) state)

include inv

/-- A work is answered with a failure. -/
theorem fail (status : Nat) (message : String) :
    Inv config delivered hand (state.act (.sent work.connection
      (work.failure status message))) := by
  apply inv.close rfl (fun _ _ => rfl)
  · rw [quanta_append]
    exact (append_nil _).symm ▸ inv.cut_work
  · intro connection response member
    rw [(eq_of_mem_responses_singleton member).2]
    trivial

/-- The peer of a work is gone. -/
theorem depart :
    Inv config delivered hand (state.act (.disconnected work.connection)) := by
  apply inv.close rfl (fun _ _ => rfl)
  · rw [quanta_append]
    exact (append_nil _).symm ▸ inv.cut_work
  · intro connection response member
    cases member

/-- A work whose candidates all have scores is answered with them. -/
theorem succeed (whole : work.nextCandidate = work.request.candidates.length) :
    Inv config delivered hand (state.act (.sent work.connection
      (.success work.request.protocolVersion work.request.requestId work.results))) := by
  apply inv.close rfl (fun _ _ => rfl)
  · rw [quanta_append]
    exact (append_nil _).symm ▸ inv.cut_work
  · intro connection response member
    rcases eq_of_mem_responses_singleton member with ⟨rfl, rfl⟩
    rcases inv.progress work mem_cons_self with ⟨⟨delivery, known, request⟩, covers⟩
    rw [whole, request] at covers
    refine ⟨delivery, known, ?_, ?_, ?_⟩
    · rw [request]
    · rw [request]
    · rw [quanta_append]
      exact (append_nil _).symm ▸ covers

end

/-- A quantum of a work was scored. -/
theorem score (inv : Inv config delivered (work :: hand) state) {last : Nat}
    {scores : List (Nat × σ)} (permits : config.Permits work.request work.nextCandidate last)
    (listed : scores.map Prod.fst = (candidatesBetween work.request.candidates work.nextCandidate
      last).map Descriptor.candidateId) :
    Inv config delivered
      ({ work with results := work.results ++ scores, nextCandidate := last } :: hand)
      (state.act (.quantum work.connection work.nextCandidate last (.ok scores))) := by
  have none : ∀ other ≠ work.connection,
      quanta [.quantum work.connection work.nextCandidate last (.ok scores)] other = [] :=
    fun other different => filterMap_cons_none (if_neg (Ne.symm different))
  have covers : Covers config work.request
      (quanta (state.log ++ [.quantum work.connection work.nextCandidate last (.ok scores)])
        work.connection) last (work.results ++ scores) := by
    have own : quanta [.quantum work.connection work.nextCandidate last (.ok scores)]
        work.connection = [⟨_, _, _⟩] := filterMap_cons_some (if_pos rfl)
    rw [quanta_append, own]
    exact .snoc (inv.progress work mem_cons_self).covers permits listed
  constructor
  case partition =>
    change (_ ++ closed (state.log ++ [_])).Perm _
    rw [closed_append]
    exact (append_nil (closed state.log)).symm ▸ inv.partition
  case progress =>
    intro other member
    rcases mem_cons.mp member with rfl | rest
    · exact ⟨(inv.progress work mem_cons_self).request, covers⟩
    · exact inv.progress_append none rest
  case unfinished => exact inv.unfinished
  case answered =>
    intro connection answer member
    change answer ∈ responses (state.log ++ [_]) connection at member
    rw [responses_append] at member
    rcases mem_append.mp member with before | new
    · exact inv.answered_append none before
    · cases new
  case cut => exact inv.cut_append none ⟨_, _, _, covers, .inl rfl⟩
  case ended => exact inv.ended

/-- A quantum of a work has failed. -/
theorem crash (inv : Inv config delivered (work :: hand) state) {last : Nat}
    (permits : config.Permits work.request work.nextCandidate last) (error : String)
    (status : Nat) (message : String) :
    Inv config delivered hand
      ((state.act (.quantum work.connection work.nextCandidate last (.error error))).act
        (.sent work.connection (work.failure status message))) := by
  have log : ∀ first second : Action σ, (state.log ++ [first]) ++ [second] =
      state.log ++ [first, second] := fun first second => append_assoc ..
  unfold act
  rw [log]
  apply inv.close rfl
  · intro other different
    exact filterMap_cons_none (if_neg (Ne.symm different))
  · rw [quanta_append]
    have one : quanta [.quantum work.connection work.nextCandidate last (.error error),
        .sent work.connection (work.failure status message)] work.connection =
        [⟨work.nextCandidate, last, .error error⟩] := filterMap_cons_some (if_pos rfl)
    rw [one]
    exact ⟨_, _, _, (inv.progress work mem_cons_self).covers, .inr ⟨last, error, rfl, permits⟩⟩
  · intro connection response member
    rw [(eq_of_mem_responses_singleton member).2]
    trivial

/-- Works that have expired are answered one after another. -/
theorem failAll {works : List (Work σ)} (inv : Inv config delivered (works ++ hand) state)
    (status : Nat) (message : String) :
    Inv config delivered hand { state with
      log := state.log ++ works.map fun work =>
        .sent work.connection (work.failure status message) } := by
  induction works generalizing state with
  | nil =>
    rw [map_nil, append_nil]
    exact inv
  | cons work works ih =>
    have next := ih (inv.fail status message)
    unfold act at next
    rw [append_assoc] at next
    exact next

/-! ### Steps of a turn -/

theorem expire (inv : Inv config delivered [] state) (now : Nat) :
    Inv config delivered [] (state.expire now) := by
  have split := (state.queue.drainExpired_perm now).map Scheduled.payload
  rw [map_append] at split
  have middle : Inv config delivered
      ((state.queue.drainExpired now).1.map Scheduled.payload ++ [])
      { state with queue := (state.queue.drainExpired now).2 } := by
    apply inv.congr
    case same =>
      rw [append_nil, nil_append]
      unfold SchedulerState.works
      apply List.Perm.trans _ (split.append_left _)
      rw [← append_assoc, ← append_assoc]
      exact perm_append_comm.append_right _
    case log => rfl
    case unfinished =>
      intro work member
      apply inv.unfinished work
      rcases mem_append.mp member with before | rest
      · exact mem_append_left _ before
      · exact mem_append_right _ (split.mem_iff.mp (mem_append_right _ rest))
    case ended => exact inv.ended
  have done := middle.failAll 2 "request deadline expired in scheduler queue"
  rw [map_map] at done
  exact done

/-- The request of a work was accepted by `parse`. -/
theorem small (inv : Inv config delivered (work :: hand) state) : work.request.Small := by
  rcases (inv.progress work mem_cons_self).request with ⟨delivery, _, request⟩
  rcases delivery.parsed with ⟨frame, parsed⟩
  rw [request]
  exact parse_small parsed

section

variable [Runtime ρ] {state' : SchedulerState ρ σ} {turn : Turn σ}

theorem works_enqueue (config : SchedulerConfig ρ) (work : Work σ) (state : SchedulerState ρ σ) :
    (state.enqueue config work).works = state.works ++ [work] := by
  unfold works enqueue RequestQueue.push
  rw [map_append, append_assoc]
  rfl

/-- A work is put into the queue. -/
theorem enqueue (inv : Inv config delivered (work :: hand) state)
    (unfinished : work.nextCandidate = 0 ∨
      work.nextCandidate < work.request.candidates.length) :
    Inv config delivered hand (state.enqueue config work) := by
  apply inv.congr
  case same =>
    rw [works_enqueue, ← append_assoc]
    exact perm_append_singleton ..
  case log => rfl
  case unfinished =>
    intro other member
    rw [works_enqueue] at member
    rcases mem_append.mp member with before | last
    · exact inv.unfinished other before
    · rw [mem_singleton.mp last]
      exact unfinished
  case ended => exact inv.ended

section

variable (inv : Inv config delivered hand state)

include inv

theorem receive {wait : Wait} (received : state.receive config wait = some state') :
    Inv config delivered hand state' ∧ state'.returned = state.returned := by
  unfold SchedulerState.receive at received
  split at received
  next => cases received
  next none =>
    cases received
    refine ⟨inv.congr (.refl _) rfl inv.unfinished fun _ => none, rfl⟩
  next work stream some =>
    cases received
    have works : state.works = work :: (stream ++ state.queue.pending.map Scheduled.payload) := by
      rw [SchedulerState.works, some]
      rfl
    refine ⟨?_, rfl⟩
    apply enqueue
    · apply inv.congr
      case same =>
        rw [works]
        exact perm_middle.symm
      case log => rfl
      case unfinished =>
        intro other member
        apply inv.unfinished other
        rw [works]
        exact mem_cons_of_mem _ member
      case ended =>
        intro ended
        rw [inv.ended ended] at some
        cases some
    · apply inv.unfinished work
      rw [works]
      exact mem_cons_self

theorem receiveBatch {waits : List Wait} :
    Inv config delivered hand (state.receiveBatch config waits) ∧
      (state.receiveBatch config waits).returned = state.returned := by
  induction waits generalizing state with
  | nil => exact ⟨inv, rfl⟩
  | cons wait waits ih =>
    rw [receiveBatch]
    split
    next =>
      split
      next => exact ⟨inv, rfl⟩
      next next received =>
        rcases inv.receive received with ⟨inv', same⟩
        rcases ih inv' with ⟨inv'', same'⟩
        exact ⟨inv'', same'.trans same⟩
    next => exact ⟨inv, rfl⟩

theorem receiveAll (received : state.receiveAll config turn = some state') :
    Inv config delivered hand state' ∧ state'.returned = state.returned := by
  unfold SchedulerState.receiveAll at received
  split at received
  next =>
    rcases Option.map_eq_some_iff.mp received with ⟨middle, first, rfl⟩
    rcases inv.receive first with ⟨inv', same⟩
    rcases inv'.receiveBatch with ⟨inv'', same'⟩
    exact ⟨inv'', same'.trans same⟩
  next =>
    cases received
    exact inv.receiveBatch

end

theorem finishQuantum (inv : Inv config delivered (work :: hand) state)
    (inside : work.nextCandidate ≤ work.request.candidates.length) (now : Nat) :
    Inv config delivered hand (state.finishQuantum config now work) := by
  unfold SchedulerState.finishQuantum
  split
  next => exact inv.fail 2 _
  next =>
    split
    next more => exact inv.enqueue (.inr more)
    next whole => exact inv.succeed (le_antisymm inside (Nat.le_of_not_lt whole))

/-- A quantum is executed. -/
theorem execute (inv : Inv config delivered (work :: hand) state)
    (unfinished : work.nextCandidate = 0 ∨ work.nextCandidate < work.request.candidates.length) :
    Inv config delivered hand (state.execute config turn work) := by
  have permits := nextQuantumEnd_permits config inv.small unfinished
  unfold SchedulerState.execute
  split
  next => exact inv.fail 2 _
  next =>
    dsimp only
    split
    next results _ => exact (inv.score permits results.2).finishQuantum permits.inside _
    next diagnostic _ =>
      have crashed := inv.crash permits diagnostic 3 diagnostic
      unfold failQuantum
      split
      next =>
        exact crashed.congr (.refl _) rfl crashed.unfinished crashed.ended
      next => exact crashed

theorem dispatch (inv : Inv config delivered [] state) :
    Inv config delivered [] (state.dispatch config turn) := by
  have spec := state.queue.pop_spec turn.poppedAt
  unfold SchedulerState.dispatch
  revert spec
  rcases state.queue.pop turn.poppedAt with ⟨popped, queue⟩
  intro spec
  cases popped with
  | none =>
    have works : ({ state with queue := queue } : SchedulerState ρ σ).works = state.works := by
      rw [SchedulerState.works, SchedulerState.works, spec.1, spec.2]
    apply inv.congr
    case same => rw [works]
    case log => rfl
    case unfinished =>
      rw [works]
      exact inv.unfinished
    case ended => exact inv.ended
  | some item =>
    have split := List.Perm.map Scheduled.payload spec
    have unfinished := inv.unfinished item.payload
      (mem_append_right _ (split.mem_iff.mp mem_cons_self))
    have popped : Inv config delivered [item.payload] { state with queue := queue } := by
      apply inv.congr
      case same =>
        rw [singleton_append, nil_append]
        exact perm_middle.symm.trans (split.append_left _)
      case log => rfl
      case unfinished =>
        intro work member
        apply inv.unfinished work
        rcases mem_append.mp member with before | rest
        · exact mem_append_left _ before
        · exact mem_append_right _ (split.mem_iff.mp (mem_cons_of_mem _ rest))
      case ended => exact inv.ended
    dsimp only
    split
    next => exact popped.depart
    next => exact popped.execute unfinished

end

end Inv

/-! ## Runs -/

/-- What holds between turns. -/
structure Ready (config : SchedulerConfig ρ) (delivered : List Delivery)
    (state : SchedulerState ρ σ) : Prop where
  inv : Inv config delivered [] state
  returned : state.returned = some (.ok ()) → state.works = []

theorem Ready.start (config : SchedulerConfig ρ) (delivered : List Delivery) :
    Ready config delivered (start config delivered : SchedulerState ρ σ) := by
  have works : (SchedulerState.start config delivered : SchedulerState ρ σ).works =
      delivered.mapIdx fun connection delivery => delivery.work connection := append_nil _
  have member : ∀ work ∈ (SchedulerState.start config delivered : SchedulerState ρ σ).works,
      ∃ (connection : Nat) (delivery : Delivery), delivered[connection]? = some delivery ∧
        work = delivery.work connection := by
    intro work member
    rw [works] at member
    rcases mem_mapIdx.mp member with ⟨connection, inside, rfl⟩
    exact ⟨connection, _, getElem?_eq_getElem inside, rfl⟩
  refine ⟨?_, fun ended => (by cases ended)⟩
  constructor
  case partition =>
    have positions : (delivered.mapIdx fun connection delivery =>
        (delivery.work connection : Work σ)).map Work.connection =
          range delivered.length := by
      apply ext_getElem
      · rw [length_map, length_mapIdx, length_range]
      · intro index _ _
        rw [getElem_map, getElem_mapIdx, getElem_range]
        rfl
    rw [nil_append, works]
    exact .of_eq ((append_nil _).trans positions)
  case progress =>
    intro work inside
    rcases member work inside with ⟨connection, delivery, known, rfl⟩
    exact ⟨⟨delivery, known, rfl⟩, .nil⟩
  case unfinished =>
    intro work inside
    rcases member work inside with ⟨connection, delivery, known, rfl⟩
    exact .inl rfl
  case answered => exact fun _ _ none => (by cases none)
  case cut => exact fun _ _ _ => ⟨[], 0, [], .nil, .inl rfl⟩
  case ended => exact fun ended => (by cases ended)

section

variable [Runtime ρ]

/-- Only a fatal error and the end of the loop return. -/
theorem returned_dispatch (config : SchedulerConfig ρ) (turn : Turn σ)
    (state : SchedulerState ρ σ) : (state.dispatch config turn).returned = state.returned ∨
      ∃ error, (state.dispatch config turn).returned = some (.error error) := by
  unfold dispatch
  split
  next => exact .inl rfl
  next =>
    split
    next => exact .inl rfl
    next =>
      unfold execute
      split
      next => exact .inl rfl
      next =>
        dsimp only
        split
        next =>
          unfold finishQuantum
          split
          next => exact .inl rfl
          next => split <;> exact .inl rfl
        next =>
          unfold failQuantum
          split
          next => exact .inr ⟨_, rfl⟩
          next => exact .inl rfl

theorem Ready.next (ready : Ready config delivered state) (turn : Turn σ) :
    Ready config delivered (state.next config turn) := by
  unfold SchedulerState.next
  split
  next => exact ready
  next running =>
    split
    next ended =>
      rcases Bool.and_eq_true_iff.mp ended with ⟨shut, empty⟩
      have none : state.works = [] := by
        have stream := ready.inv.ended (by simpa using shut)
        rw [works, stream, isEmpty_iff.mp empty]
        rfl
      constructor
      · exact ready.inv.congr (.refl _) rfl ready.inv.unfinished ready.inv.ended
      · exact fun _ => none
    next =>
      split
      next => exact ready
      next received found =>
        rcases ready.inv.receiveAll found with ⟨inv, same⟩
        constructor
        · exact (inv.expire _).dispatch
        · intro ok
          rcases returned_dispatch config turn (received.expire turn.drainedAt) with
            unchanged | ⟨error, failed⟩
          · have before : received.returned = some (.ok ()) := unchanged.symm.trans ok
            rw [same] at before
            rw [before] at running
            exact absurd rfl running
          · rw [failed] at ok
            cases ok

/-- Every turn of every run. -/
theorem Ready.run (ready : Ready config delivered state) (turns : List (Turn σ)) :
    Ready config delivered ((runScheduler config).run state turns) :=
  Machine.run_invariant (fun _ turn holds => holds.next turn) ready turns

end

end SchedulerState

end VectorChord.Tilemaxsimd
