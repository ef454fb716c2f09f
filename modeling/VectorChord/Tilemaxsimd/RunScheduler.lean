import VectorChord.Tilemaxsimd.Protocol
import VectorChord.Tilemaxsimd.Scheduler
import VectorChord.Transition.Machine

/-!
# The loop of the scheduler

`run_scheduler` receives requests, cuts them into quanta and has the engine score one
quantum at a time.  Each turn of the loop is a step of a machine: what clocks say, which
requests arrive in time, whether a peer is gone and what the engine returns is up to the
turn.
-/

namespace VectorChord.Tilemaxsimd

open Collections Transition

variable {ρ σ : Type}

/-! ## Work -/

/-- A request as it is delivered to the scheduler: one that `parse` has accepted. -/
structure Delivery where
  request : Request
  acceptedAt : Nat
  deadline : Nat
  parsed : ∃ frame, parse frame = .ok request

/-- `Work`.  The connection is the position of the request in the stream. -/
structure Work (σ : Type) where
  request : Request
  connection : Nat
  acceptedAt : Nat
  deadline : Nat
  nextCandidate : Nat
  results : List (Nat × σ)

def Delivery.work (self : Delivery) (connection : Nat) : Work σ :=
  ⟨self.request, connection, self.acceptedAt, self.deadline, 0, []⟩

/-- `SchedulerConfig`, with limits that are positive. -/
structure SchedulerConfig (ρ : Type) where
  policy : SchedulerPolicy
  priorityAging : Nat
  priorityBand : Int
  quantumCandidates : Nat
  quantumTokens : Nat
  quantumFmas : Nat
  tenantWeights : Table String ρ
  positive : 0 < quantumCandidates ∧ 0 < quantumTokens ∧ 0 < quantumFmas

/-! ## Quanta -/

/-- `candidate_fmas`. -/
def candidateFmas (queryRows dimension documentRows : Nat) : Nat :=
  saturatingMul (saturatingMul queryRows documentRows) dimension

/-- The loop of `quantum_end`, over the candidates that are left. -/
def quantumLength (maximumCandidates maximumTokens maximumFmas queryRows dimension : Nat) :
    (taken tokens fmas : Nat) → List Descriptor → Nat
  | taken, _, _, [] => taken
  | taken, tokens, fmas, candidate :: rest =>
    let fmas' := saturatingAdd fmas (candidateFmas queryRows dimension candidate.rows)
    let tokens' := saturatingAdd tokens candidate.rows
    if taken < maximumCandidates then
      if 0 < taken ∧ (maximumTokens < tokens' ∨ maximumFmas < fmas') then taken
      else
        quantumLength maximumCandidates maximumTokens maximumFmas queryRows dimension
          (taken + 1) tokens' fmas' rest
    else taken

/-- `quantum_end`. -/
def quantumEnd (candidates : List Descriptor)
    (start maximumCandidates maximumTokens maximumFmas queryRows dimension : Nat) : Nat :=
  start + quantumLength maximumCandidates maximumTokens maximumFmas queryRows dimension 0 0 0
    (candidates.drop start)

/-- `next_quantum_end`. -/
def nextQuantumEnd (config : SchedulerConfig ρ) (work : Work σ) : Nat :=
  quantumEnd work.request.candidates work.nextCandidate config.quantumCandidates
    config.quantumTokens config.quantumFmas work.request.queryRows work.request.dimension

/-- The candidates from one index to another. -/
def candidatesBetween (candidates : List Descriptor) (first last : Nat) : List Descriptor :=
  (candidates.drop first).take (last - first)

/-- `estimated_next_work`. -/
def estimatedNextWork (config : SchedulerConfig ρ) (work : Work σ) : Nat :=
  max (((candidatesBetween work.request.candidates work.nextCandidate
    (nextQuantumEnd config work)).map fun candidate =>
      candidateFmas work.request.queryRows work.request.dimension candidate.rows).foldl
        saturatingAdd 0) 1

/-- The request for a quantum. -/
def Request.quantum (self : Request) (first last : Nat) : Request :=
  { self with
    candidates := candidatesBetween self.candidates first last
    uniform := fun candidate member =>
      self.uniform candidate (List.mem_of_mem_drop (List.mem_of_mem_take member)) }

/-! ## Turns -/

/-- What the engine returns for a request: a score for each of its candidates. -/
abbrev Scores (request : Request) (σ : Type) :=
  { results : List (Nat × σ) // results.map Prod.fst = request.candidates.map
    Descriptor.candidateId }

/-- A response frame: `success` or `failure`. -/
inductive Response (σ : Type) where
  | success (version requestId : Nat) (results : List (Nat × σ))
  | failure (version requestId status : Nat) (message : String)

/-- Whether `recv_timeout` waits in vain.  If not, there is a request or the channel is
disconnected. -/
inductive Wait where
  | available
  | timeout
  deriving DecidableEq, Repr

/-- What one turn of the loop finds.  The list of waits ends with the batching window. -/
structure Turn (σ : Type) where
  firstWait : Wait
  batchWaits : List Wait
  drainedAt : Nat
  poppedAt : Nat
  peerDisconnected : Bool
  startedAt : Nat
  score : (quantum : Request) → Except String (Scores quantum σ)
  finishedAt : Nat

/-- What the scheduler has done on a connection. -/
inductive Action (σ : Type) where
  | sent (connection : Nat) (response : Response σ)
  | quantum (connection first last : Nat) (outcome : Except String (List (Nat × σ)))
  | disconnected (connection : Nat)

/-- The state of `run_scheduler`: the requests that it will receive, its queue, what it has
done and what it has returned. -/
structure SchedulerState (ρ σ : Type) where
  stream : List (Work σ)
  channelOpen : Bool
  queue : RequestQueue ρ (Work σ)
  log : List (Action σ)
  returned : Option (Except String Unit)

/-- `is_fatal_cuda_diagnostic`. -/
def isFatalCudaDiagnostic (diagnostic : String) : Bool :=
  ["cudaSetDevice", "cudaMemcpy", "cudaStream", "CUDA workspace initialization",
    "TileMaxSim CUDA execution", "GPU upload worker panicked", "GPU worker panicked"].any
      fun marker => marker.toList <:+: diagnostic.toList

/-- A failure of a request. -/
def Work.failure (self : Work σ) (status : Nat) (message : String) : Response σ :=
  .failure self.request.protocolVersion self.request.requestId status message

namespace SchedulerState

/-- Before the first turn. -/
def start (config : SchedulerConfig ρ) (delivered : List Delivery) : SchedulerState ρ σ where
  stream := delivered.mapIdx fun connection delivery => delivery.work connection
  channelOpen := true
  queue := .new config.policy config.priorityAging config.priorityBand config.tenantWeights
  log := []
  returned := none

/-- Note an action. -/
def act (self : SchedulerState ρ σ) (action : Action σ) : SchedulerState ρ σ :=
  { self with log := self.log ++ [action] }

variable [Runtime ρ]

/-- Push a work to the queue, as `enqueue_work` and the end of a quantum do. -/
def enqueue (config : SchedulerConfig ρ) (work : Work σ) (self : SchedulerState ρ σ) :
    SchedulerState ρ σ :=
  { self with
    queue := self.queue.push (.new work.request.tenant work.request.priority
      (estimatedNextWork config work) work.acceptedAt work.deadline work) }

/-- One `recv_timeout`.  `none` means that it timed out. -/
def receive (config : SchedulerConfig ρ) (wait : Wait) (self : SchedulerState ρ σ) :
    Option (SchedulerState ρ σ) :=
  match wait, self.stream with
  | .timeout, _ => none
  | .available, [] => some { self with channelOpen := false }
  | .available, work :: stream => some ({ self with stream := stream }.enqueue config work)

/-- Receive requests while the batching window is open. -/
def receiveBatch (config : SchedulerConfig ρ) : List Wait → SchedulerState ρ σ → SchedulerState ρ σ
  | [], self => self
  | wait :: waits, self =>
    if self.channelOpen then
      match self.receive config wait with
      | none => self
      | some next => receiveBatch config waits next
    else self

/-- Receive requests.  `none` means that the queue stays empty. -/
def receiveAll (config : SchedulerConfig ρ) (turn : Turn σ) (self : SchedulerState ρ σ) :
    Option (SchedulerState ρ σ) :=
  if self.queue.pending.isEmpty && self.channelOpen then
    (self.receive config turn.firstWait).map (receiveBatch config turn.batchWaits)
  else some (receiveBatch config turn.batchWaits self)

/-- Answer the requests that have expired in the queue. -/
def expire (now : Nat) (self : SchedulerState ρ σ) : SchedulerState ρ σ :=
  let (expired, queue) := self.queue.drainExpired now
  { self with
    queue := queue
    log := self.log ++ expired.map fun item => .sent item.payload.connection
      (item.payload.failure 2 "request deadline expired in scheduler queue") }

/-- The end of a quantum that the engine has scored. -/
def finishQuantum (config : SchedulerConfig ρ) (now : Nat) (work : Work σ)
    (self : SchedulerState ρ σ) : SchedulerState ρ σ :=
  if work.deadline ≤ now then
    self.act (.sent work.connection
      (work.failure 2 "request deadline expired during GPU execution"))
  else if work.nextCandidate < work.request.candidates.length then self.enqueue config work
  else
    self.act (.sent work.connection
      (.success work.request.protocolVersion work.request.requestId work.results))

/-- The end of a quantum that the engine has not scored. -/
def failQuantum (diagnostic : String) (work : Work σ) (self : SchedulerState ρ σ) :
    SchedulerState ρ σ :=
  let self := self.act (.sent work.connection (work.failure 3 diagnostic))
  if isFatalCudaDiagnostic diagnostic then
    { self with returned := some (.error ("fatal CUDA failure: " ++ diagnostic)) }
  else self

/-- Execute a quantum. -/
def execute (config : SchedulerConfig ρ) (turn : Turn σ) (work : Work σ)
    (self : SchedulerState ρ σ) : SchedulerState ρ σ :=
  if work.deadline ≤ turn.startedAt then
    self.act (.sent work.connection (work.failure 2 "request deadline expired before execution"))
  else
    let last := nextQuantumEnd config work
    match turn.score (work.request.quantum work.nextCandidate last) with
    | .ok results =>
      (self.act (.quantum work.connection work.nextCandidate last (.ok results.1))).finishQuantum
        config turn.finishedAt
        { work with results := work.results ++ results.1, nextCandidate := last }
    | .error diagnostic =>
      (self.act (.quantum work.connection work.nextCandidate last
        (.error diagnostic))).failQuantum diagnostic work

/-- Pop a request and execute a quantum of it, unless its peer is gone. -/
def dispatch (config : SchedulerConfig ρ) (turn : Turn σ) (self : SchedulerState ρ σ) :
    SchedulerState ρ σ :=
  match self.queue.pop turn.poppedAt with
  | (none, queue) => { self with queue := queue }
  | (some scheduled, queue) =>
    let self := { self with queue := queue }
    if turn.peerDisconnected then self.act (.disconnected scheduled.payload.connection)
    else self.execute config turn scheduled.payload

/-- One turn of the loop. -/
def next (config : SchedulerConfig ρ) (turn : Turn σ) (self : SchedulerState ρ σ) :
    SchedulerState ρ σ :=
  if self.returned.isSome then self
  else if !self.channelOpen && self.queue.pending.isEmpty then
    { self with returned := some (.ok ()) }
  else
    match self.receiveAll config turn with
    | none => self
    | some self => (self.expire turn.drainedAt).dispatch config turn

end SchedulerState

/-- `run_scheduler`. -/
def runScheduler [Runtime ρ] (config : SchedulerConfig ρ) :
    Machine (SchedulerState ρ σ) (Turn σ) Unit where
  step self turn := (self.next config turn, ())

end VectorChord.Tilemaxsimd
