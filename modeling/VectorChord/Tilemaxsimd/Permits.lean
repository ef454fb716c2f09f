import VectorChord.Tilemaxsimd.RunScheduler

/-!
# Permits of requests

A reader thread takes a permit for the bytes of a frame before it reads them, and one for a
pending request before it sends the request to the scheduler.  Both go with the request
through the channel and are given back by destructors, wherever the request ends.  A step
is one access to what the threads share: a counter, the table behind the mutex or the
channel; the order of the steps is arbitrary.
-/

namespace VectorChord.Tilemaxsimd

open Codec Collections Transition Table AList

/-! ## Admission -/

/-- `PendingState`. -/
structure PendingState where
  total : Nat
  tenants : Table String Nat

inductive AdmissionRejection where
  | global
  | tenant

namespace PendingState

/-- The pending requests of a tenant. -/
def count (self : PendingState) (tenant : String) : Nat := (self.tenants.lookup tenant).getD 0

/-- `PendingAdmission::try_acquire`. -/
def tryAcquire (maxTotal maxTenant : Nat) (tenant : String) (self : PendingState) :
    Except AdmissionRejection PendingState :=
  if maxTotal ≤ self.total then .error .global
  else if maxTenant ≤ self.count tenant then .error .tenant
  else .ok ⟨self.total + 1, self.tenants.insert tenant (self.count tenant + 1)⟩

/-- `PendingPermit::drop`. -/
def release (tenant : String) (self : PendingState) : PendingState where
  total := self.total - 1
  tenants :=
    match self.tenants.lookup tenant with
    | none => self.tenants
    | some count =>
      if count - 1 = 0 then self.tenants.erase tenant else self.tenants.insert tenant (count - 1)

end PendingState

/-- `ByteAdmission::try_acquire`: the bytes in use behind it. -/
def acquireBytes (maximum bytes used : Nat) : Option Nat :=
  (checkedAdd used bytes).filter (· ≤ maximum)

/-- `BytePermit::drop`.  A `fetch_sub` wraps around. -/
def releaseBytes (bytes used : Nat) : Nat := (used + (2 ^ 64 - bytes)) % 2 ^ 64

/-! ## Readers -/

/-- The arguments of the daemon that limit requests. -/
structure RequestLimits where
  maxQueuedRequests : Nat
  maxTenantQueuedRequests : Nat
  maxInflightRequestGb : Nat
  maxRequestBytes : Nat
  requestTimeoutMs : Nat
  schedulerQuantumFmas : Nat
  usize : maxInflightRequestGb ≤ usizeMax

/-- Where the `Work` of a request is: with its reader, in the channel, with the scheduler, or
where it is dropped. -/
inductive Place where
  | reader
  | channel
  | scheduler
  | dropped
  deriving DecidableEq

/-- How far a connection is, with the permits that are alive for it: one for bytes once
the header is read, and one for a pending request as long as there is a `Work`. -/
inductive Stage where
  | reading (acceptedAt : Nat)
  | framed (acceptedAt : Nat) (header : List UInt8) (bytes : Nat)
  | parsed (request : Request) (bytes : Nat)
  | work (place : Place) (request : Request) (bytes : Nat)
  | leaving (bytes : Nat)
  | closed

/-- What the threads share, and the stages of all connections so far. -/
structure Daemon where
  pending : PendingState
  used : Nat
  receiver : Bool
  connections : Table Nat Stage

/-- What a thread does next with a connection.  What a socket and a clock return is up to
the step. -/
inductive ThreadStep where
  | header (header : Except String (List UInt8))
  | body (body : Except String (List UInt8)) (now : Nat)
  | acquire
  | send
  | receive
  /-- The thread returns or panics, or the scheduler is done with a request. -/
  | finish
  /-- The next destructor of what is left. -/
  | destroy

inductive DaemonEvent where
  | accept (connection now : Nat)
  | thread (connection : Nat) (step : ThreadStep)
  /-- The receiver is dropped. -/
  | disconnect

/-- The part of `read_request` between header and permit. -/
def frameBytes (maximum : Nat) (header : List UInt8) : Except String Nat :=
  match checkedAdd headerBytes (fromLe ((header.drop 16).take 8)) with
  | none => .error "request length overflow"
  | some total => if maximum < total then .error "request exceeds byte limit" else .ok total

/-- What `read_and_enqueue` checks of a frame, with the status of the failure. -/
def checkFrame (limits : RequestLimits) (acceptedAt now : Nat) (frame : List UInt8) :
    Except (Nat × String) Request :=
  match parse frame with
  | .error message => .error (1, message)
  | .ok request =>
    if request.candidates.any fun candidate => limits.schedulerQuantumFmas <
        candidateFmas request.queryRows request.dimension candidate.rows then
      .error (1, "one candidate exceeds the configured CUDA kernel work limit")
    else
      let clientTimeout := if request.timeoutMs = 0 then limits.requestTimeoutMs
        else min request.timeoutMs limits.requestTimeoutMs
      if acceptedAt + clientTimeout ≤ now then
        .error (2, "request deadline expired before enqueue")
      else .ok request

/-- `header_version`. -/
def headerVersion (frame : List UInt8) : Nat :=
  if frame.length < headerBytes then versionExternal
  else if fromLe ((frame.drop 4).take 2) = versionScheduledExternal then versionScheduledExternal
  else versionExternal

/-- `header_request_id`. -/
def headerRequestId (frame : List UInt8) : Nat :=
  if frame.length < headerBytes then 0 else fromLe ((frame.drop 8).take 8)

def Request.failure (self : Request) (status : Nat) (message : String) : Response Empty :=
  .failure self.protocolVersion self.requestId status message

inductive TrySendError where
  | full
  | disconnected

namespace Stage

/-- The permits that are alive: the tenant of a pending request, and bytes. -/
def permits : Stage → Option String × Nat
  | reading _ | closed => (none, 0)
  | framed _ _ bytes | parsed _ bytes | leaving bytes => (none, bytes)
  | work _ request bytes => (some request.tenant, bytes)

def bytes (self : Stage) : Nat := self.permits.2

/-- The permits for pending requests. -/
def pending (self : Stage) : Nat := self.permits.1.elim 0 fun _ => 1

/-- The permits for pending requests of a tenant. -/
def pendingOf (tenant : String) (self : Stage) : Nat :=
  self.permits.1.elim 0 fun owner => if tenant = owner then 1 else 0

/-- The messages in the channel. -/
def sent : Stage → Nat
  | work .channel _ _ => 1
  | _ => 0

end Stage

namespace Daemon

/-- Before the first connection. -/
def start : Daemon := ⟨⟨0, ∅⟩, 0, true, ∅⟩

/-- The total of what is alive. -/
def alive (weight : Stage → Nat) (self : Daemon) : Nat :=
  Table.total (fun _ stage => weight stage) self.connections

def put (connection : Nat) (stage : Stage) (self : Daemon) : Daemon :=
  { self with connections := self.connections.insert connection stage }

/-- `SyncSender::try_send` to a channel for `max_queued_requests` messages. -/
def trySend (limits : RequestLimits) (self : Daemon) : Except TrySendError Unit :=
  if !self.receiver then .error .disconnected
  else if limits.maxQueuedRequests ≤ self.alive Stage.sent then .error .full
  else .ok ()

def readHeader (limits : RequestLimits) (connection acceptedAt : Nat)
    (header : Except String (List UInt8)) (self : Daemon) : Daemon × Option (Response Empty) :=
  let fail (message : String) :=
    (self.put connection .closed, some (.failure versionExternal 0 1 message))
  match header with
  | .error message => fail message
  | .ok header =>
    match frameBytes limits.maxRequestBytes header with
    | .error message => fail message
    | .ok total =>
      match acquireBytes limits.maxInflightRequestGb total self.used with
      | none => fail "in-flight TileMaxSim request byte budget is exhausted"
      | some used =>
        ({ self with used := used }.put connection (.framed acceptedAt header total), none)

def readBody (limits : RequestLimits) (connection acceptedAt : Nat) (header : List UInt8)
    (bytes : Nat) (body : Except String (List UInt8)) (now : Nat) (self : Daemon) :
    Daemon × Option (Response Empty) :=
  match body with
  | .error message =>
    (self.put connection (.leaving bytes), some (.failure versionExternal 0 1 message))
  | .ok body =>
    let frame := header ++ body
    match checkFrame limits acceptedAt now frame with
    | .error (status, message) => (self.put connection (.leaving bytes),
        some (.failure (headerVersion frame) (headerRequestId frame) status message))
    | .ok request => (self.put connection (.parsed request bytes), none)

def acquire (limits : RequestLimits) (connection : Nat) (request : Request) (bytes : Nat)
    (self : Daemon) : Daemon × Option (Response Empty) :=
  match self.pending.tryAcquire limits.maxQueuedRequests limits.maxTenantQueuedRequests
      request.tenant with
  | .error .global => (self.put connection (.leaving bytes),
      some (request.failure 2 "TileMaxSim scheduler queue is full"))
  | .error .tenant => (self.put connection (.leaving bytes),
      some (request.failure 2 "tenant TileMaxSim queue limit exceeded"))
  | .ok pending =>
    ({ self with pending := pending }.put connection (.work .reader request bytes), none)

def send (limits : RequestLimits) (connection : Nat) (request : Request) (bytes : Nat)
    (self : Daemon) : Daemon × Option (Response Empty) :=
  match self.trySend limits with
  | .ok () => (self.put connection (.work .channel request bytes), none)
  | .error .full => (self.put connection (.work .dropped request bytes),
      some (request.failure 2 "TileMaxSim scheduler queue is full"))
  | .error .disconnected => (self.put connection (.work .dropped request bytes),
      some (request.failure 3 "TileMaxSim scheduler is unavailable"))

/-- One step of a thread.  A step that a connection in its stage does not take leaves the
state as it is. -/
def act (limits : RequestLimits) (connection : Nat) (self : Daemon) :
    ThreadStep → Stage → Daemon × Option (Response Empty)
  | .header header, .reading acceptedAt => self.readHeader limits connection acceptedAt header
  | .body body now, .framed acceptedAt header bytes =>
    self.readBody limits connection acceptedAt header bytes body now
  | .acquire, .parsed request bytes => self.acquire limits connection request bytes
  | .send, .work .reader request bytes => self.send limits connection request bytes
  | .receive, .work .channel request bytes =>
    (if self.receiver then self.put connection (.work .scheduler request bytes) else self, none)
  | .finish, .reading _ => (self.put connection .closed, none)
  | .finish, .framed _ _ bytes => (self.put connection (.leaving bytes), none)
  | .finish, .parsed _ bytes => (self.put connection (.leaving bytes), none)
  -- what is in the channel ends with the receiver
  | .finish, .work place request bytes =>
    (if place = .channel ∧ self.receiver then self
      else self.put connection (.work .dropped request bytes), none)
  -- the fields of a `Work` are dropped in order, the permit for bytes as the last
  | .destroy, .work .dropped request bytes =>
    ({ self with pending := self.pending.release request.tenant }.put connection (.leaving bytes),
      none)
  | .destroy, .leaving bytes =>
    ({ self with used := releaseBytes bytes self.used }.put connection .closed, none)
  | _, _ => (self, none)

def machine (limits : RequestLimits) :
    Machine Daemon DaemonEvent (Option (Response Empty)) where
  step self event :=
    match event with
    | .accept connection now =>
      (if connection ∈ self.connections then self else self.put connection (.reading now), none)
    | .thread connection step =>
      match self.connections.lookup connection with
      | none => (self, none)
      | some stage => self.act limits connection step stage
    | .disconnect => ({ self with receiver := false }, none)

end Daemon

/-! ## Totals -/

namespace PendingState

variable {self after : PendingState} {maxTotal maxTenant : Nat} {tenant : String}

/-- No tenant is listed without a request. -/
def Nonzero (self : PendingState) : Prop := ∀ tenant, self.tenants.lookup tenant ≠ some 0

theorem Nonzero.insert (nonzero : self.Nonzero) {total count : Nat} (positive : count ≠ 0) :
    PendingState.Nonzero ⟨total, self.tenants.insert tenant count⟩ := by
  intro other zero
  rcases lookup_insert_iff.mp zero with ⟨_, none⟩ | ⟨_, old⟩
  · exact positive none.symm
  · exact nonzero other old

theorem count_insert (total count : Nat) (other : String) :
    PendingState.count ⟨total, self.tenants.insert tenant count⟩ other =
      if other = tenant then count else self.count other := by
  by_cases same : other = tenant
  · subst same
    simp [PendingState.count]
  · simp [PendingState.count, same]

/-- A request of the tenant is counted. -/
theorem tryAcquire_ok (nonzero : self.Nonzero)
    (acquired : self.tryAcquire maxTotal maxTenant tenant = .ok after) :
    after.total = self.total + 1 ∧ after.total ≤ maxTotal ∧ after.Nonzero ∧
      ∀ other, after.count other = self.count other + (if other = tenant then 1 else 0) ∧
        (self.count other ≤ maxTenant → after.count other ≤ maxTenant) := by
  obtain ⟨room, acquired⟩ := Fallible.guard_eq_ok.mp acquired
  obtain ⟨tenantRoom, acquired⟩ := Fallible.guard_eq_ok.mp acquired
  cases acquired
  refine ⟨rfl, Nat.lt_of_not_le room, nonzero.insert (Nat.succ_ne_zero _), fun other => ?_⟩
  rw [count_insert]
  split
  next same =>
    rw [same]
    exact ⟨rfl, fun _ => Nat.lt_of_not_le tenantRoom⟩
  next => exact ⟨rfl, id⟩

/-- A request of the tenant is not counted any more. -/
theorem release_ok (nonzero : self.Nonzero) (some_ : 0 < self.count tenant) :
    (self.release tenant).Nonzero ∧ ∀ other,
      (self.release tenant).count other + (if other = tenant then 1 else 0) = self.count other := by
  unfold release
  cases known : self.tenants.lookup tenant with
  | none => simp [PendingState.count, known] at some_
  | some count =>
    have counted : self.count tenant = count := by simp [PendingState.count, known]
    dsimp only
    split
    next last =>
      constructor
      · intro other zero
        exact nonzero other (lookup_erase_iff.mp zero).2
      · intro other
        by_cases same : other = tenant
        · subst same
          simp only [PendingState.count, lookup_erase, Option.getD_none, if_true] at *
          omega
        · simp [PendingState.count, same]
    next more =>
      refine ⟨nonzero.insert more, fun other => ?_⟩
      rw [count_insert]
      split
      next same =>
        rw [same]
        omega
      next => rfl

end PendingState

theorem releaseBytes_eq {bytes used : Nat} (taken : bytes ≤ used) (fits : used ≤ usizeMax) :
    releaseBytes bytes used = used - bytes := by
  unfold releaseBytes
  unfold usizeMax at fits
  omega

namespace Daemon

variable {limits : RequestLimits} {self : Daemon} {connection limit counter counter' : Nat}
  {stage next : Stage} {weight : Stage → Nat}

/-- A counter is the total of a weight and within its limit. -/
def Counts (self : Daemon) (weight : Stage → Nat) (limit counter : Nat) : Prop :=
  counter = self.alive weight ∧ counter ≤ limit

section

variable (counts : self.Counts weight limit counter)
  (found : self.connections.lookup connection = some stage)

include counts found

/-- A connection goes on, and the counter follows. -/
theorem Counts.put
    (follows : counter' + weight stage = counter + weight next) (within : counter' ≤ limit) :
    (self.put connection next).Counts weight limit counter' := by
  have total := counts.1
  have old := total_erase (fun _ stage => weight stage) found
  have new := total_insert (fun _ stage => weight stage) self.connections connection next
  refine ⟨?_, within⟩
  simp only [alive, Daemon.put] at *
  omega

theorem Counts.move (same : weight next = weight stage) :
    (self.put connection next).Counts weight limit counter :=
  counts.put found (by rw [same]) counts.2

/-- A connection goes on without a permit, which is given back. -/
theorem Counts.give (back : counter' + weight stage = counter) (none : weight next = 0) :
    (self.put connection next).Counts weight limit counter' :=
  counts.put found (by rw [back, none]; rfl) ((Nat.le.intro back).trans counts.2)

/-- What a connection has is counted. -/
theorem Counts.weight_le : weight stage ≤ counter :=
  counts.1 ▸ weight_le_total (fun _ stage => weight stage) found

end

/-- The counters count the permits that are alive. -/
structure Accounted (limits : RequestLimits) (daemon : Daemon) : Prop where
  total : daemon.Counts Stage.pending limits.maxQueuedRequests daemon.pending.total
  tenants : ∀ tenant, daemon.Counts (Stage.pendingOf tenant) limits.maxTenantQueuedRequests
    (daemon.pending.count tenant)
  used : daemon.Counts Stage.bytes limits.maxInflightRequestGb daemon.used
  nonzero : daemon.pending.Nonzero

namespace Accounted

variable {acceptedAt bytes : Nat} {header : List UInt8} {request : Request}
  (accounted : self.Accounted limits)

include accounted

/-- A connection goes on with the permits that it has. -/
theorem move (found : self.connections.lookup connection = some stage)
    (same : next.permits = stage.permits) : (self.put connection next).Accounted limits where
  total := accounted.total.move found (by rw [Stage.pending, Stage.pending, same])
  tenants tenant := (accounted.tenants tenant).move found (by
    rw [Stage.pendingOf, Stage.pendingOf, same])
  used := accounted.used.move found (by rw [Stage.bytes, Stage.bytes, same])
  nonzero := accounted.nonzero

theorem readHeader (found : self.connections.lookup connection = some (.reading acceptedAt))
    (header : Except String (List UInt8)) :
    (self.readHeader limits connection acceptedAt header).1.Accounted limits := by
  have failed : (self.put connection .closed).Accounted limits := accounted.move found rfl
  unfold Daemon.readHeader
  split
  next => exact failed
  next =>
    split
    next => exact failed
    next =>
      split
      next => exact failed
      next used acquired =>
        obtain ⟨sum, room⟩ := Option.filter_eq_some_iff.mp acquired
        exact ⟨accounted.total.move found rfl, fun tenant =>
          (accounted.tenants tenant).move found rfl,
          accounted.used.put found (eq_of_checkedAdd sum).1 (of_decide_eq_true room),
          accounted.nonzero⟩

theorem readBody
    (found : self.connections.lookup connection = some (.framed acceptedAt header bytes))
    (body : Except String (List UInt8)) (now : Nat) :
    (self.readBody limits connection acceptedAt header bytes body now).1.Accounted limits := by
  unfold Daemon.readBody
  split
  next => exact accounted.move found rfl
  next =>
    dsimp only
    split <;> exact accounted.move found rfl

theorem acquire (found : self.connections.lookup connection = some (.parsed request bytes)) :
    (self.acquire limits connection request bytes).1.Accounted limits := by
  unfold Daemon.acquire
  split
  next => exact accounted.move found rfl
  next => exact accounted.move found rfl
  next pending acquired =>
    obtain ⟨total, room, nonzero, counts⟩ :=
      PendingState.tryAcquire_ok accounted.nonzero acquired
    exact ⟨accounted.total.put found total room, fun tenant => (accounted.tenants tenant).put found
      (counts tenant).1 ((counts tenant).2 (accounted.tenants tenant).2),
      accounted.used.move found rfl, nonzero⟩

theorem send (found : self.connections.lookup connection = some (.work .reader request bytes)) :
    (self.send limits connection request bytes).1.Accounted limits := by
  unfold Daemon.send
  split <;> exact accounted.move found rfl

theorem dropPending
    (found : self.connections.lookup connection = some (.work .dropped request bytes)) :
    ({ self with pending := self.pending.release request.tenant }.put connection
      (.leaving bytes)).Accounted limits := by
  have held : (if request.tenant = request.tenant then 1 else 0) ≤ self.pending.count _ :=
    (accounted.tenants request.tenant).weight_le found
  rw [if_pos rfl] at held
  obtain ⟨nonzero, counts⟩ := PendingState.release_ok accounted.nonzero held
  exact ⟨accounted.total.give found (Nat.sub_add_cancel (accounted.total.weight_le found)) rfl,
    fun tenant => (accounted.tenants tenant).give found (counts tenant) rfl,
    accounted.used.move found rfl, nonzero⟩

theorem dropBytes (found : self.connections.lookup connection = some (.leaving bytes)) :
    ({ self with used := releaseBytes bytes self.used }.put connection .closed).Accounted
      limits := by
  have held : bytes ≤ self.used := accounted.used.weight_le found
  have released := releaseBytes_eq held (accounted.used.2.trans limits.usize)
  exact ⟨accounted.total.move found rfl, fun tenant => (accounted.tenants tenant).move found rfl,
    accounted.used.give found (released ▸ Nat.sub_add_cancel held) rfl, accounted.nonzero⟩

theorem act (found : self.connections.lookup connection = some stage) (step : ThreadStep) :
    (self.act limits connection step stage).1.Accounted limits := by
  unfold Daemon.act
  split
  case h_1 header acceptedAt => exact accounted.readHeader found header
  case h_2 body now _ _ _ => exact accounted.readBody found body now
  case h_3 => exact accounted.acquire found
  case h_4 => exact accounted.send found
  case h_5 =>
    dsimp only
    split
    next => exact accounted.move found rfl
    next => exact accounted
  case h_9 =>
    dsimp only
    split
    next => exact accounted
    next => exact accounted.move found rfl
  case h_10 => exact accounted.dropPending found
  case h_11 => exact accounted.dropBytes found
  case h_12 => exact accounted
  all_goals exact accounted.move found rfl

theorem step (event : DaemonEvent) : ((machine limits).step self event).1.Accounted limits := by
  cases event with
  | accept connection now =>
    simp only [machine]
    split
    next => exact accounted
    next fresh =>
      have new : ∀ {weight : Stage → Nat} {limit counter}, self.Counts weight limit counter →
          weight (.reading now) = 0 →
            (self.put connection (.reading now)).Counts weight limit counter := by
        intro weight limit counter counts zero
        refine ⟨counts.1.trans ?_, counts.2⟩
        rw [alive, alive, Daemon.put, total_insert_of_notMem _ fresh, zero, zero_add]
      exact ⟨new accounted.total rfl, fun tenant => new (accounted.tenants tenant) rfl,
        new accounted.used rfl, accounted.nonzero⟩
  | thread connection step =>
    simp only [machine]
    split
    next => exact accounted
    next found => exact accounted.act found step
  | disconnect => exact { accounted with }

/-- The permit of the sender is not one of the messages in the channel. -/
theorem trySend_ne_full
    (found : self.connections.lookup connection = some (.work .reader request bytes)) :
    self.trySend limits ≠ .error .full := by
  have below : Table.total (fun _ stage => stage.sent) (self.connections.erase connection) ≤
      Table.total (fun _ stage => stage.pending) (self.connections.erase connection) := by
    apply total_le_total
    intro _ stage
    unfold Stage.sent
    split
    next => exact Nat.le_refl _
    next => exact Nat.zero_le _
  have sent : 0 + _ = self.alive Stage.sent := total_erase (fun _ stage => stage.sent) found
  have pending : 1 + _ = self.alive Stage.pending :=
    total_erase (fun _ stage => stage.pending) found
  have room : ¬ limits.maxQueuedRequests ≤ self.alive Stage.sent := by
    have total := accounted.total
    unfold Counts at total
    omega
  unfold trySend
  split
  next => simp
  next => simp

end Accounted

theorem accounted_run (limits : RequestLimits) (events : List DaemonEvent) :
    ((machine limits).run start events).Accounted limits := by
  apply Machine.run_invariant
  · intro self event accounted
    exact accounted.step event
  · exact ⟨⟨rfl, Nat.zero_le _⟩, fun _ => ⟨rfl, Nat.zero_le _⟩, ⟨rfl, Nat.zero_le _⟩, nofun⟩

/-- However the threads take turns, the counters are the totals of the permits that are
alive and within the limits, no sender finds the channel full, and nothing is counted once
all requests are finished. -/
theorem run_permits (limits : RequestLimits) (events : List DaemonEvent) :
    let daemon := (machine limits).run start events
    (daemon.pending.total = daemon.alive Stage.pending ∧
      daemon.pending.total ≤ limits.maxQueuedRequests) ∧
    (∀ tenant, daemon.pending.count tenant = daemon.alive (Stage.pendingOf tenant) ∧
      daemon.pending.count tenant ≤ limits.maxTenantQueuedRequests) ∧
    (daemon.used = daemon.alive Stage.bytes ∧ daemon.used ≤ limits.maxInflightRequestGb) ∧
    (∀ connection request bytes,
      daemon.connections.lookup connection = some (.work .reader request bytes) →
        daemon.trySend limits ≠ .error .full) ∧
    ((∀ connection stage, daemon.connections.lookup connection = some stage →
        stage = .closed ∨ ∃ acceptedAt, stage = .reading acceptedAt) →
      daemon.pending.total = 0 ∧ daemon.pending.tenants = ∅ ∧ daemon.used = 0) := by
  intro daemon
  have accounted := accounted_run limits events
  refine ⟨accounted.total, accounted.tenants, accounted.used,
    fun _ _ _ found => accounted.trySend_ne_full found, fun finished => ?_⟩
  have nothing : ∀ weight : Stage → Nat, weight .closed = 0 →
      (∀ acceptedAt, weight (.reading acceptedAt) = 0) → daemon.alive weight = 0 := by
    intro weight closed reading
    apply total_eq_zero
    intro connection stage found
    rcases finished connection stage found with rfl | ⟨acceptedAt, rfl⟩
    · exact closed
    · exact reading acceptedAt
  refine ⟨accounted.total.1.trans (nothing _ rfl fun _ => rfl), eq_empty fun tenant known => ?_,
    accounted.used.1.trans (nothing _ rfl fun _ => rfl)⟩
  obtain ⟨count, found⟩ := mem_iff_lookup.mp known
  have zero := (accounted.tenants tenant).1.trans (nothing _ rfl fun _ => rfl)
  rw [PendingState.count, found] at zero
  exact accounted.nonzero tenant (found.trans (congrArg some zero))

end Daemon

end VectorChord.Tilemaxsimd
