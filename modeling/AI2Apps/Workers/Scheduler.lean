import AI2Apps.Workers.Resources
import Mathlib.Data.List.Sort
import Mathlib.Data.Prod.Lex
import Mathlib.Data.Rat.Floor
import Mathlib.Logic.Function.Basic
import Mathlib.Order.WithBot

/-!
# The scheduler of model workers

`worker_scheduler.py`.  No section under the lock suspends, so a call runs up to its
next wait without another one in between; what interleaves are the calls.  A ticket is
known by its number, and a call of `acquire` by the number of its ticket.  A time is a
number of seconds, and no digit of it is rounded.

* `QueueTicket`, `Caller`, `WorkerJobScheduler`: the state, with the calls of `acquire`.
* `WorkerJobScheduler.dispatchLocked`: expiry, choice and admission.
* `WorkerJobScheduler.acquire`, `release`, `cancel`, …: the operations.
* `Event`, `WorkerJobScheduler.after`, `WorkerJobScheduler.run`: the interleavings.
-/

namespace AI2Apps.Workers

/-! ## Tickets -/

inductive WorkloadClass where
  | localInteractive
  | localForeground
  | remoteCommitted
  | localBackground
  | maintenance
  deriving DecidableEq

namespace WorkloadClass

/-- `_CLASS_RANK`. -/
def rank : WorkloadClass → ℕ
  | localInteractive => 0
  | localForeground => 1
  | remoteCommitted => 2
  | localBackground => 3
  | maintenance => 4

/-- The classes that wait for the user. -/
def background : WorkloadClass → Bool
  | localBackground | maintenance => true
  | _ => false

/-- The classes that they wait for. -/
def foreground : WorkloadClass → Bool
  | localInteractive | localForeground => true
  | _ => false

end WorkloadClass

inductive QueueTicketStatus where
  | queued
  | running
  | succeeded
  | failed
  | cancelled
  | expired
  deriving DecidableEq

structure QueueTicket where
  /-- The number of the ticket. -/
  sequence : ℕ
  requestId : Str
  serviceKey : Str
  workloadClass : WorkloadClass
  createdAt : ℚ
  deadline : Option ℚ
  estimatedResidentBytes : Option ℤ
  estimatedTransientBytes : Option ℤ
  actorId : Option Str
  appId : Option Str
  sessionId : Option Str

/-- What `cancel_queued_request` and `owns_active_request` compare. -/
structure Identity where
  serviceKey : Str
  requestId : Str
  actorId : Str
  appId : Option Str
  sessionId : Option Str

def QueueTicket.matches (t : QueueTicket) (i : Identity) : Bool :=
  t.serviceKey = i.serviceKey && t.requestId = i.requestId && t.actorId = some i.actorId &&
    t.appId = i.appId && t.sessionId = i.sessionId

/-- `deadline is not None and deadline <= now`. -/
def QueueTicket.overdue (t : QueueTicket) (now : ℚ) : Bool := t.deadline.any fun d => d ≤ now

/-! ## The state -/

/-- Where a call of `acquire` is.  The first four after `absent` are the states of the
future that it awaits. -/
inductive Caller where
  | absent
  | waiting
  /-- The future has the lease. -/
  | granted
  /-- The future has a `TimeoutError`. -/
  | expired
  | cancelled
  /-- The timer of `wait_for` has cancelled the task. -/
  | timedOut
  /-- Someone else has cancelled the task. -/
  | interrupted
  /-- The call has returned the lease. -/
  | holding
  /-- The call has raised, or the lease is released. -/
  | finished
  deriving DecidableEq

/-- The call awaits its future. -/
def Caller.awaits : Caller → Bool
  | .waiting | .granted | .expired | .cancelled => true
  | _ => false

structure SchedulerConfig where
  maxHeavyComputeSlots : ℕ
  defaultWorkerSlots : ℕ
  maxQueueDepth : ℕ
  agingIntervalSeconds : ℚ
  maxActivePerActor : ℕ
  maxQueuedPerActor : ℕ
  maxQueuedPerApp : ℕ
  slots_pos : 1 ≤ maxHeavyComputeSlots ∧ 1 ≤ defaultWorkerSlots
  queue_pos : 1 ≤ maxQueueDepth ∧ 0 < agingIntervalSeconds
  actor_pos : 1 ≤ maxActivePerActor ∧ 1 ≤ maxQueuedPerActor ∧ 1 ≤ maxQueuedPerApp

structure WorkerJobScheduler where
  queued : List QueueTicket
  active : List QueueTicket
  /-- The calls of `acquire`; those of queued tickets are the `_waiters`. -/
  callers : ℕ → Caller
  workerSlots : Str → Option ℕ
  sequence : ℕ
  closed : Bool
  completed : ℕ
  failed : ℕ
  cancelled : ℕ
  expired : ℕ
  actorDispatches : Str → ℕ
  backgroundGateReasons : Finset Str
  resourceManager : Option WorkerResourceManager
  /-- The snapshots that had been taken when the last dispatch began; the scheduler does
  not keep it. -/
  dispatchedFrom : ℕ

def WorkerJobScheduler.initial (resourceManager : Option WorkerResourceManager) :
    WorkerJobScheduler where
  queued := []
  active := []
  callers _ := .absent
  workerSlots _ := none
  sequence := 0
  closed := false
  completed := 0
  failed := 0
  cancelled := 0
  expired := 0
  actorDispatches _ := 0
  backgroundGateReasons := ∅
  resourceManager
  dispatchedFrom := 0

/-- The tickets without the one of a number. -/
def without (n : ℕ) (tickets : List QueueTicket) : List QueueTicket :=
  tickets.filter fun t => t.sequence ≠ n

namespace WorkerJobScheduler

variable (config : SchedulerConfig)

def isQueued (s : WorkerJobScheduler) (n : ℕ) : Bool := s.queued.any fun t => t.sequence = n

def isActive (s : WorkerJobScheduler) (n : ℕ) : Bool := s.active.any fun t => t.sequence = n

def setCaller (s : WorkerJobScheduler) (n : ℕ) (caller : Caller) : WorkerJobScheduler :=
  { s with callers := Function.update s.callers n caller }

/-- `if not waiter.done()`. -/
def settleWaiter (s : WorkerJobScheduler) (n : ℕ) (caller : Caller) : WorkerJobScheduler :=
  if s.callers n = .waiting then s.setCaller n caller else s

/-- The counter of a final status. -/
def count (s : WorkerJobScheduler) : QueueTicketStatus → WorkerJobScheduler
  | .succeeded => { s with completed := s.completed + 1 }
  | .failed => { s with failed := s.failed + 1 }
  | .cancelled => { s with cancelled := s.cancelled + 1 }
  | .expired => { s with expired := s.expired + 1 }
  | .queued | .running => s

/-- A ticket leaves the queue for good. -/
def dropTicket (s : WorkerJobScheduler) (n : ℕ) (status : QueueTicketStatus) (caller : Caller) :
    WorkerJobScheduler :=
  ({ s with queued := without n s.queued }.count status).settleWaiter n caller

def workerSlotsOf (s : WorkerJobScheduler) (serviceKey : Str) : ℕ :=
  (s.workerSlots serviceKey).getD config.defaultWorkerSlots

/-! ## Choice -/

def effectiveRank (t : QueueTicket) (now : ℚ) : ℕ :=
  let base := t.workloadClass.rank
  if base = 0 then 0
  else max 1 (base - ⌊max 0 (now - t.createdAt) / config.agingIntervalSeconds⌋.toNat)

/-- The keys of `_priority`, the least first. -/
abbrev Priority := ℕ ×ₗ WithTop ℚ ×ₗ ℕ ×ₗ ℚ ×ₗ ℕ

def priority (s : WorkerJobScheduler) (now : ℚ) (t : QueueTicket) : Priority :=
  toLex (effectiveRank config t now,
    toLex (t.deadline.elim ⊤ WithTop.some,
      toLex ((t.actorId.map s.actorDispatches).getD 0, toLex (t.createdAt, t.sequence))))

def workerRunning (s : WorkerJobScheduler) (serviceKey : Str) : ℕ :=
  s.active.countP fun t => t.serviceKey = serviceKey

def actorRunning (s : WorkerJobScheduler) (actorId : Str) : ℕ :=
  s.active.countP fun t => t.actorId = some actorId

/-- Background work is held back from the ticket. -/
def heldBack (s : WorkerJobScheduler) (t : QueueTicket) : Bool :=
  t.workloadClass.background &&
    (s.backgroundGateReasons ≠ ∅ ||
      s.queued.any fun q => q.workloadClass.foreground && q.sequence ≠ t.sequence)

def runnable (s : WorkerJobScheduler) (t : QueueTicket) : Bool :=
  !s.heldBack t &&
    t.actorId.all (fun a => s.actorRunning a < config.maxActivePerActor) &&
    s.workerRunning t.serviceKey < s.workerSlotsOf config t.serviceKey

/-- `sorted(candidates, key=…)`. -/
def sortedCandidates (s : WorkerJobScheduler) (now : ℚ) : List QueueTicket :=
  (s.queued.filter (s.runnable config)).insertionSort fun a b =>
    s.priority config now a ≤ s.priority config now b

/-- `try_reserve` where there is a manager. -/
def tryReserve (resources : Option WorkerResourceManager) (t : QueueTicket) :
    Option WorkerResourceManager × Bool :=
  match resources with
  | none => (none, true)
  | some m =>
    let (m', reservation) :=
      m.tryReserve t.sequence t.serviceKey t.estimatedTransientBytes t.estimatedResidentBytes
    (some m', reservation.isSome)

/-- The first candidate with a reservation. -/
def firstReserved (resources : Option WorkerResourceManager) :
    List QueueTicket → Option WorkerResourceManager × Option QueueTicket
  | [] => (resources, none)
  | t :: ts =>
    match tryReserve resources t with
    | (resources', true) => (resources', some t)
    | (resources', false) => firstReserved resources' ts

/-! ## Dispatch -/

def expireTicketOf (now : ℚ) (s : WorkerJobScheduler) (t : QueueTicket) : WorkerJobScheduler :=
  if t.overdue now then s.dropTicket t.sequence .expired .expired else s

def expireLocked (s : WorkerJobScheduler) (now : ℚ) : WorkerJobScheduler :=
  s.queued.foldl (expireTicketOf now) s

/-- A ticket that has its reservation starts. -/
def start (s : WorkerJobScheduler) (t : QueueTicket) : WorkerJobScheduler :=
  { s with
    queued := without t.sequence s.queued
    active := s.active ++ [t]
    actorDispatches := t.actorId.elim s.actorDispatches fun a =>
      Function.update s.actorDispatches a (s.actorDispatches a + 1) }.settleWaiter
    t.sequence .granted

/-- The loop of `_dispatch_locked`, which starts a ticket on each turn but the last. -/
def dispatchLoop (now : ℚ) : ℕ → WorkerJobScheduler → WorkerJobScheduler
  | 0, s => s
  | turns + 1, s =>
    if s.active.length < config.maxHeavyComputeSlots then
      match firstReserved s.resourceManager (s.sortedCandidates config now) with
      | (resourceManager, some t) => dispatchLoop now turns ({ s with resourceManager }.start t)
      | (resourceManager, none) => { s with resourceManager }
    else s

/-- The snapshots that were taken. -/
def samples (resources : Option WorkerResourceManager) : ℕ :=
  resources.elim 0 WorkerResourceManager.sampled

def dispatchLocked (s : WorkerJobScheduler) (now : ℚ) : WorkerJobScheduler :=
  let s := s.expireLocked now
  { s with dispatchedFrom := samples s.resourceManager }.dispatchLoop config now s.queued.length

/-! ## Operations -/

structure Request where
  serviceKey : Str
  workloadClass : WorkloadClass
  requestId : Option Str
  timeoutSeconds : Option ℚ
  estimatedResidentBytes : Option ℤ
  estimatedTransientBytes : Option ℤ
  actorId : Option Str
  appId : Option Str
  sessionId : Option Str

inductive AcquireError where
  | timeoutError (message : Str)
  | runtimeError (message : Str)

/-- `request_id or …`, where the other one is drawn. -/
def requestIdOr (drawn : Str) : Option Str → Str
  | some (c :: cs) => c :: cs
  | _ => drawn

/-- The timeout of a request: its own or the one of the manager. -/
def timeoutOf (s : WorkerJobScheduler) (request : Request) : Option ℚ :=
  request.timeoutSeconds <|> s.resourceManager.map fun m => m.config.admissionWaitSeconds

def ticketOf (s : WorkerJobScheduler) (request : Request) (drawn : Str) (created : ℚ) :
    QueueTicket where
  sequence := s.sequence + 1
  requestId := requestIdOr drawn request.requestId
  serviceKey := request.serviceKey
  workloadClass := request.workloadClass
  createdAt := created
  deadline := (s.timeoutOf request).map fun seconds => created + seconds
  estimatedResidentBytes := request.estimatedResidentBytes
  estimatedTransientBytes := request.estimatedTransientBytes
  actorId := request.actorId
  appId := request.appId
  sessionId := request.sessionId

def enqueue (s : WorkerJobScheduler) (t : QueueTicket) : WorkerJobScheduler :=
  { s with
    queued := s.queued ++ [t]
    sequence := s.sequence + 1
    callers := Function.update s.callers t.sequence .waiting }

/-- `acquire` up to its wait. -/
def acquire (s : WorkerJobScheduler) (request : Request) (drawn : Str) (created now : ℚ) :
    Except AcquireError WorkerJobScheduler :=
  if (s.timeoutOf request).any fun seconds => seconds ≤ 0 then
    .error (.timeoutError (str "Worker queue deadline expired"))
  else if s.closed then .error (.runtimeError (str "Worker scheduler is shutting down"))
  else if config.maxQueueDepth ≤ s.queued.length then
    .error (.runtimeError (str "Worker scheduler queue is full"))
  else if request.actorId.any fun a =>
      config.maxQueuedPerActor ≤ s.queued.countP fun t => t.actorId = some a then
    .error (.runtimeError (str "Worker scheduler actor queue is full"))
  else if request.appId.any fun a =>
      config.maxQueuedPerApp ≤ s.queued.countP fun t => t.appId = some a then
    .error (.runtimeError (str "Worker scheduler App queue is full"))
  else .ok ((s.enqueue (s.ticketOf request drawn created)).dispatchLocked config now)

/-- `_expire_ticket`. -/
def expireTicket (s : WorkerJobScheduler) (n : ℕ) (now : ℚ) : WorkerJobScheduler × Bool :=
  if s.isQueued n then ((s.dropTicket n .expired .cancelled).dispatchLocked config now, true)
  else (s, false)

def cancel (s : WorkerJobScheduler) (n : ℕ) (now : ℚ) : WorkerJobScheduler × Bool :=
  if s.isQueued n then ((s.dropTicket n .cancelled .cancelled).dispatchLocked config now, true)
  else (s, false)

def ownsActiveRequest (s : WorkerJobScheduler) (i : Identity) : Bool :=
  !(i.actorId = [] || i.requestId = []) && s.active.any fun t => t.matches i

def cancelQueuedRequest (s : WorkerJobScheduler) (i : Identity) (now : ℚ) :
    WorkerJobScheduler × Bool :=
  if i.actorId = [] || i.requestId = [] then (s, false)
  else if s.active.any fun t => t.matches i then (s, false)
  else
    match s.queued.filter fun t => t.matches i with
    | [] => (s, false)
    | matching =>
      ((matching.foldl (fun s t => s.dropTicket t.sequence .cancelled .cancelled) s).dispatchLocked
        config now, true)

/-- An active ticket gives its slot back. -/
def stop (s : WorkerJobScheduler) (n : ℕ) (status : QueueTicketStatus) : WorkerJobScheduler :=
  { s with
    active := without n s.active
    resourceManager := s.resourceManager.map (WorkerResourceManager.release · n) }.count status

/-- `_release`. -/
def release (s : WorkerJobScheduler) (n : ℕ) (failed cancelled : Bool) (now : ℚ) :
    WorkerJobScheduler :=
  if s.isActive n then
    (s.stop n (if cancelled then .cancelled else if failed then .failed else .succeeded)).dispatchLocked
      config now
  else s

def setBackgroundGate (s : WorkerJobScheduler) (reason : Str) (paused : Bool) (now : ℚ) :
    Option WorkerJobScheduler :=
  if reason = [] then none
  else
    some ({ s with
      backgroundGateReasons :=
        if paused then insert reason s.backgroundGateReasons
        else s.backgroundGateReasons.erase reason }.dispatchLocked config now)

def setWorkerSlots (s : WorkerJobScheduler) (serviceKey : Str) (slots : ℕ) :
    Option WorkerJobScheduler :=
  if slots < 1 then none
  else some { s with workerSlots := Function.update s.workerSlots serviceKey (some slots) }

def shutdown (s : WorkerJobScheduler) : WorkerJobScheduler :=
  { s with
    closed := true
    cancelled := s.cancelled + s.queued.length
    queued := []
    callers := fun n =>
      if s.isQueued n && s.callers n = .waiting then .cancelled else s.callers n }

/-! ## The end of `acquire` -/

/-- What a cancelled call does with its ticket. -/
def giveUp (s : WorkerJobScheduler) (n : ℕ) (now : ℚ) : WorkerJobScheduler :=
  match s.cancel config n now with
  | (s, true) => s.setCaller n .finished
  | (s, false) => (s.setCaller n .finished).release config n true false now

/-- The task goes on: it returns the lease, or cleans up and raises. -/
def resume (s : WorkerJobScheduler) (n : ℕ) (now : ℚ) : WorkerJobScheduler :=
  match s.callers n with
  | .granted => s.setCaller n .holding
  | .expired | .timedOut => (s.expireTicket config n now).1.setCaller n .finished
  | .cancelled | .interrupted => s.giveUp config n now
  | _ => s

/-! ## Interleavings -/

inductive Event where
  | acquire (request : Request) (drawn : Str) (created now : ℚ)
  /-- The timer of `wait_for` fires before the task is resumed. -/
  | timer (n : ℕ)
  /-- The task of the call is cancelled before it is resumed. -/
  | interrupt (n : ℕ)
  | resume (n : ℕ) (now : ℚ)
  /-- `SchedulerLease.release`. -/
  | release (n : ℕ) (failed cancelled : Bool) (now : ℚ)
  | cancel (n : ℕ) (now : ℚ)
  | cancelQueuedRequest (i : Identity) (now : ℚ)
  | snapshot (now : ℚ)
  | setBackgroundGate (reason : Str) (paused : Bool) (now : ℚ)
  | notifyResourcesChanged (now : ℚ)
  | setWorkerSlots (serviceKey : Str) (slots : ℕ)
  | shutdown
  | setPinned (serviceKey : Str) (pinned : Bool)
  | evictIdle (serviceKey : Str)
  /-- The package manager is done with the eviction. -/
  | evicted (serviceKey : Str) (now : ℚ)

def after (s : WorkerJobScheduler) : Event → WorkerJobScheduler
  | .acquire request drawn created now =>
    match s.acquire config request drawn created now with
    | .ok s' => s'
    | .error _ => s
  | .timer n => if (s.callers n).awaits then s.setCaller n .timedOut else s
  | .interrupt n =>
    if (s.callers n).awaits || s.callers n = .timedOut then s.setCaller n .interrupted else s
  | .resume n now => s.resume config n now
  | .release n failed cancelled now =>
    if s.callers n = .holding then (s.setCaller n .finished).release config n failed cancelled now
    else s
  | .cancel n now => (s.cancel config n now).1
  | .cancelQueuedRequest i now => (s.cancelQueuedRequest config i now).1
  | .snapshot now => s.expireLocked now
  | .setBackgroundGate reason paused now => (s.setBackgroundGate config reason paused now).getD s
  | .notifyResourcesChanged now => s.dispatchLocked config now
  | .setWorkerSlots serviceKey slots => (s.setWorkerSlots serviceKey slots).getD s
  | .shutdown => s.shutdown
  | .setPinned serviceKey pinned =>
    { s with resourceManager := s.resourceManager.map fun m =>
        (m.setPinned serviceKey pinned).getD m }
  | .evictIdle serviceKey =>
    { s with resourceManager := s.resourceManager.map fun m =>
        (m.evictIdle serviceKey).getD m }
  | .evicted serviceKey now =>
    { s with
      resourceManager :=
        s.resourceManager.map (WorkerResourceManager.evicted · serviceKey) }.dispatchLocked config now

def run (s : WorkerJobScheduler) (events : List Event) : WorkerJobScheduler :=
  events.foldl (after config) s

end WorkerJobScheduler

end AI2Apps.Workers
