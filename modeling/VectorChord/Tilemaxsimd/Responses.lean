import VectorChord.Tilemaxsimd.EngineScore
import VectorChord.Tilemaxsimd.SchedulerRuns

/-!
# Responses of the scheduler

Every request gets at most one response, and if the scheduler ends without an error
exactly one unless its peer is gone.  A success has the scores of all candidates, quantum
by quantum.
-/

namespace VectorChord.Tilemaxsimd

open Collections Transition List

variable {ρ σ : Type}

/-! ## Quanta -/

/-- The scores of a quantum. -/
def Quantum.scores (quantum : Quantum σ) : List (Nat × σ) :=
  match quantum.outcome with
  | .ok scores => scores
  | .error _ => []

/-- Quanta that follow each other from one index to another. -/
def Consecutive : (first last : Nat) → List (Quantum σ) → Prop
  | first, last, [] => first = last
  | first, last, quantum :: rest => quantum.first = first ∧ Consecutive quantum.last last rest

theorem Consecutive.append_single {front : List (Quantum σ)} {first last : Nat}
    (consecutive : Consecutive first last front) {quantum : Quantum σ}
    (next : quantum.first = last) : Consecutive first quantum.last (front ++ [quantum]) := by
  induction front generalizing first with
  | nil => exact ⟨next.trans consecutive.symm, rfl⟩
  | cons _ _ ih => exact ⟨consecutive.1, ih consecutive.2⟩

/-- The quantum is within the limits, and what the engine has returned for it lists its
candidates. -/
def Proper (config : SchedulerConfig ρ) (request : Request) (quantum : Quantum σ) : Prop :=
  config.Permits request quantum.first quantum.last ∧
    ∀ scores, quantum.outcome = .ok scores → scores.map Prod.fst =
      (candidatesBetween request.candidates quantum.first quantum.last).map
        Descriptor.candidateId

section

variable {config : SchedulerConfig ρ} {request : Request} {front : List (Quantum σ)}
    {next : Nat} {results : List (Nat × σ)}

section

variable (covers : Covers config request front next results)

include covers

theorem Covers.results_eq :
    results = front.flatMap Quantum.scores := by
  induction covers with
  | nil => rfl
  | snoc _ _ _ ih =>
    rw [flatMap_append, ← ih, flatMap_singleton]
    rfl

theorem Covers.listed :
    results.map Prod.fst = (request.candidates.take next).map Descriptor.candidateId := by
  induction covers with
  | nil => rfl
  | @snoc _ first last _ _ _ permits listed ih =>
    have whole : request.candidates.take last = request.candidates.take first ++
        candidatesBetween request.candidates first last := by
      have sum : last = first + (last - first) := (Nat.add_sub_cancel' permits.ordered).symm
      nth_rewrite 1 [sum]
      exact take_add
    rw [map_append, ih, listed, whole, map_append]

theorem Covers.consecutive :
    Consecutive 0 next front := by
  induction covers with
  | nil => rfl
  | @snoc front first last _ scores _ _ _ ih =>
    have next : (⟨first, last, .ok scores⟩ : Quantum σ).first = first := rfl
    exact ih.append_single next

theorem Covers.proper :
    ∀ quantum ∈ front, Proper config request quantum := by
  induction covers with
  | nil =>
    intro quantum member
    cases member
  | snoc _ permits listed ih =>
    intro quantum member
    rcases mem_append.mp member with earlier | last
    · exact ih quantum earlier
    · rw [mem_singleton.mp last]
      constructor
      · exact permits
      · intro scores equal
        cases equal
        exact listed

end

/-- Also with a quantum that has failed. -/
theorem Cut.consecutive (cut : Cut config request front) :
    (∃ last, Consecutive 0 last front) ∧ ∀ quantum ∈ front, Proper config request quantum := by
  rcases cut with ⟨front, next, results, covers, rfl | ⟨last, error, rfl, permits⟩⟩
  · exact ⟨⟨next, covers.consecutive⟩, covers.proper⟩
  · constructor
    · have follows : (⟨next, last, .error error⟩ : Quantum σ).first = next := rfl
      exact ⟨last, covers.consecutive.append_single follows⟩
    · intro quantum member
      rcases mem_append.mp member with earlier | failed
      · exact covers.proper quantum earlier
      · rw [mem_singleton.mp failed]
        constructor
        · exact permits
        · intro scores impossible
          cases impossible

end

/-! ## Responses -/

namespace SchedulerState

variable {config : SchedulerConfig ρ} {delivered : List Delivery} {state : SchedulerState ρ σ}

section

variable (ready : Ready config delivered state)

include ready

/-- No connection is closed twice. -/
theorem Ready.responses_le (connection : Nat) :
    (responses state.log connection).length ≤ 1 := by
  have distinct := ready.inv.partition.nodup_iff.mpr nodup_range
  exact (count_closed state.log connection).1.trans
    (nodup_iff_count_le_one.mp (nodup_append.mp distinct).2.1 connection)

/-- At the end every connection is closed. -/
theorem Ready.responses_eq (returned : state.returned = some (.ok ())) {connection : Nat}
    (inside : connection < delivered.length)
    (connected : Action.disconnected connection ∉ state.log) :
    (responses state.log connection).length = 1 := by
  have partition := ready.inv.partition
  rw [nil_append, ready.returned returned, map_nil, nil_append] at partition
  rw [← (count_closed state.log connection).2 connected, partition.count_eq]
  exact count_eq_one_of_mem nodup_range (mem_range.mpr inside)

theorem Ready.success {connection version requestId : Nat}
    {results : List (Nat × σ)}
    (member : .success version requestId results ∈ responses state.log connection) :
    ∃ delivery, delivered[connection]? = some delivery ∧
      version = delivery.request.protocolVersion ∧ requestId = delivery.request.requestId ∧
      results.map Prod.fst = delivery.request.candidates.map Descriptor.candidateId ∧
      results = (quanta state.log connection).flatMap Quantum.scores := by
  rcases ready.inv.answered connection _ member with ⟨delivery, found, rfl, rfl, covers⟩
  have listed := covers.listed
  rw [take_length] at listed
  exact ⟨delivery, found, rfl, rfl, listed, covers.results_eq⟩

end

end SchedulerState

/-- In every run of the scheduler: a connection gets at most one response, and exactly one if
the scheduler ends without an error and has not found the peer gone; a success has a score
for each candidate of the request, in its order, which are those of its quanta, one after
the other; the quanta of a request follow each other, and each has at least one candidate
unless the request has none, and stays within the limits unless it has only one. -/
theorem runScheduler_responses [Runtime ρ] (config : SchedulerConfig ρ)
    (delivered : List Delivery) (turns : List (Turn σ)) :
    let reached := (runScheduler config).run (.start config delivered) turns
    (∀ connection, (responses reached.log connection).length ≤ 1) ∧
      (reached.returned = some (.ok ()) → ∀ connection < delivered.length,
        .disconnected connection ∉ reached.log →
          (responses reached.log connection).length = 1) ∧
      (∀ connection version requestId results,
        .success version requestId results ∈ responses reached.log connection →
          ∃ delivery, delivered[connection]? = some delivery ∧
            version = delivery.request.protocolVersion ∧
            requestId = delivery.request.requestId ∧
            results.map Prod.fst = delivery.request.candidates.map Descriptor.candidateId ∧
            results = (quanta reached.log connection).flatMap Quantum.scores) ∧
      ∀ (connection : Nat) (delivery : Delivery), delivered[connection]? = some delivery →
        (∃ last, Consecutive 0 last (quanta reached.log connection)) ∧
          ∀ quantum ∈ quanta reached.log connection,
            Proper config delivery.request quantum := by
  intro reached
  have ready : SchedulerState.Ready config delivered reached :=
    (SchedulerState.Ready.start config delivered).run turns
  refine ⟨ready.responses_le, ?_, ?_, ?_⟩
  · intro returned connection inside connected
    exact ready.responses_eq returned inside connected
  · intro connection version requestId results member
    exact ready.success member
  · intro connection delivery found
    exact (ready.inv.cut connection delivery found).consecutive

/-- A frame of a request without candidates. -/
def frameWithoutCandidates : List UInt8 :=
  magic ++ [2, 0, 1, 0, 7, 0, 0, 0, 0, 0, 0, 0, 25, 0, 0, 0, 0, 0, 0, 0] ++
    [1, 0, 0, 0, 1, 0, 0, 0, 0, 0, 0, 0, 1, 1, 0, 0, 1, 0, 0, 0, 109, 0, 0, 128, 63]

/-- The request of a frame, if `parse` accepts it. -/
def deliver (frame : List UInt8) (acceptedAt deadline : Nat) : List Delivery :=
  match parsed : parse frame with
  | .ok request => [⟨request, acceptedAt, deadline, frame, parsed⟩]
  | .error _ => []

/-- Virtual runtimes that do not advance. -/
@[reducible]
def Runtime.still : Runtime Unit where
  zero := ()
  one := ()
  min _ _ := ()
  max _ _ := ()
  charge _ _ _ := ()
  lt _ _ := false
  eq _ _ := true

/-- A turn that receives one request and has it scored. -/
def Turn.scored : Turn Unit where
  firstWait := .available
  batchWaits := []
  drainedAt := 0
  poppedAt := 0
  peerDisconnected := false
  startedAt := 0
  score quantum := .ok ⟨quantum.candidates.map fun candidate => (candidate.candidateId, ()), by
    rw [map_map]
    rfl⟩
  finishedAt := 0

/-- Limits of one. -/
def SchedulerConfig.single : SchedulerConfig Unit where
  policy := .priority
  priorityAging := 1
  priorityBand := 1
  quantumCandidates := 1
  quantumTokens := 1
  quantumFmas := 1
  tenantWeights := ∅
  positive := by decide

/-- A request without candidates has a quantum that is empty. -/
theorem runScheduler_emptyQuantum :
    let _ := Runtime.still
    (quanta ((runScheduler .single).run (.start .single (deliver frameWithoutCandidates 0 1))
      [Turn.scored]).log 0).map (fun quantum => (quantum.first, quantum.last)) = [(0, 0)] := by
  decide +kernel

end VectorChord.Tilemaxsimd
