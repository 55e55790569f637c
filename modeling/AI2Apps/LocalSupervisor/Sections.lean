import AI2Apps.Lib.Faults

/-!
# The supervisor of the Local process

`LocalProcessSupervisor` is an actor: a call runs without interruption up to its next
`await`, and other calls run while it is suspended.  A call is therefore a sequence of
sections, each a program on the actor's fields that returns what the call waits for, or
nothing when the call is over; an exception keeps what the section has written.

The surroundings decide what a section finds outside the actor: whether a call into the
system throws, what the descriptor file says, what the bootstrap request answers.

* `SupervisorState`, `reduce`: the states and their transitions.
* `start`, `adoptRunningLocal`, `stop`, `healthCheck`: the first section of each call.
* `resume`: the section that follows an `await`.
-/

namespace AI2Apps.LocalSupervisor

open Faults

/-! ## States -/

abbrev ProcessID := ℕ

abbrev BootID := ℕ

/-- What a running Local writes about itself. -/
structure LocalRunDescriptor where
  processID : ProcessID
  bootID : BootID
  actualPort : ℕ
  deriving DecidableEq

structure ReadyLocal where
  descriptor : LocalRunDescriptor
  deriving DecidableEq

inductive SupervisorState where
  | stopped
  | validatingRuntime (bootID : BootID)
  | starting (bootID : BootID)
  | migrating (processID : ProcessID) (bootID : BootID)
  | ready (ready : ReadyLocal)
  | degraded (ready : ReadyLocal) (consecutiveHealthFailures : ℕ)
  | stopping (processID : Option ProcessID)
  | failed (message : String) (restartAttempt : ℕ)
  deriving DecidableEq

def SupervisorState.isRunningLike : SupervisorState → Bool
  | .starting _ | .migrating _ _ | .ready _ | .degraded _ _ | .stopping _ => true
  | .stopped | .validatingRuntime _ | .failed _ _ => false

inductive SupervisorEvent where
  | requestStart (bootID : BootID)
  | runtimeValidated (bootID : BootID)
  | processSpawned (processID : ProcessID) (bootID : BootID)
  | migrationStarted (processID : ProcessID) (bootID : BootID)
  /-- `invalid` is what `descriptor.validate` throws, if it does. -/
  | localReady (descriptor : LocalRunDescriptor) (invalid : Option String)
  | healthFailed
  | healthRecovered
  | requestStop
  | processExited (expected : Bool) (message : Option String)
  | stopCompleted
  | retryScheduled (attempt : ℕ) (message : String)
  deriving DecidableEq

inductive Failure where
  | alreadyRunning
  | portInUse (port : ℕ)
  | processExited
  | descriptorProcessMismatch (expected actual : ProcessID)
  | startupTimedOut
  | invalidTransition (state : SupervisorState) (event : SupervisorEvent)
  | staleBootID
  | invalidField (field reason : String)
  /-- An error of the system, of the contracts or of the bootstrap request. -/
  | other (description : String)

/-- `String(describing: error)`. -/
def Failure.describing : Failure → String
  | .alreadyRunning => "alreadyRunning"
  | .portInUse _ => "portInUse"
  | .processExited => "processExited"
  | .descriptorProcessMismatch _ _ => "descriptorProcessMismatch"
  | .startupTimedOut => "startupTimedOut"
  | .invalidTransition _ _ => "invalidTransition"
  | .staleBootID => "staleBootID"
  | .invalidField field _ => "invalidField " ++ field
  | .other description => description

/-- `guard expected == actual else { throw staleBootID }`. -/
def sameBoot (expected actual : BootID) (state : SupervisorState) :
    Except Failure SupervisorState :=
  if expected = actual then .ok state else .error .staleBootID

/-- The check of a descriptor that has become ready. -/
def localReady (expected : BootID) (descriptor : LocalRunDescriptor) :
    Option String → Except Failure SupervisorState
  | none => sameBoot expected descriptor.bootID (.ready ⟨descriptor⟩)
  | some e =>
    if expected = descriptor.bootID then .error (.other e) else .error .staleBootID

/-- `SupervisorReducer.reduce`. -/
def reduce : SupervisorState → SupervisorEvent → Except Failure SupervisorState
  | .stopped, .requestStart bootID => .ok (.validatingRuntime bootID)
  | .failed _ _, .requestStart bootID => .ok (.validatingRuntime bootID)
  | .validatingRuntime expected, .runtimeValidated actual =>
    sameBoot expected actual (.starting actual)
  | .starting expected, .processSpawned processID actual =>
    if expected ≠ actual then .error .staleBootID
    else if processID = 0 then .error (.invalidField "pid" "must be positive")
    else .ok (.migrating processID actual)
  | .starting expected, .migrationStarted processID actual =>
    sameBoot expected actual (.migrating processID actual)
  | .migrating _ expected, .migrationStarted processID actual =>
    sameBoot expected actual (.migrating processID actual)
  | .migrating _ expected, .localReady descriptor invalid => localReady expected descriptor invalid
  | .starting expected, .localReady descriptor invalid => localReady expected descriptor invalid
  | .ready ready, .healthFailed => .ok (.degraded ready 1)
  | .degraded ready failures, .healthFailed => .ok (.degraded ready (failures + 1))
  | .degraded ready _, .healthRecovered => .ok (.ready ready)
  | .starting _, .requestStop => .ok (.stopping none)
  | .migrating _ _, .requestStop => .ok (.stopping none)
  | .ready ready, .requestStop => .ok (.stopping (some ready.descriptor.processID))
  | .degraded ready _, .requestStop => .ok (.stopping (some ready.descriptor.processID))
  | .validatingRuntime _, .requestStop => .ok .stopped
  | .stopping _, .stopCompleted => .ok .stopped
  | _, .processExited true _ => .ok .stopped
  | _, .processExited false message =>
    .ok (.failed (message.getD "Local process exited unexpectedly") 0)
  | .failed _ _, .retryScheduled attempt message => .ok (.failed message attempt)
  | state, event => .error (.invalidTransition state event)

/-! ## The actor and the processes -/

/-- A process of the system; `owned` once the actor has spawned or adopted it, `told`
once it has been sent a signal to terminate. -/
structure OSProcess where
  running : Bool
  owned : Bool
  told : Bool

/-- The fields of the actor, and the processes of the system.  An identifier is not used
twice. -/
structure Supervisor where
  state : SupervisorState
  process : Option ProcessID
  managedDescriptor : Option LocalRunDescriptor
  processes : ProcessID → Option OSProcess
  nextProcess : ProcessID
  nextBoot : BootID

abbrev Section (α : Type) := EStateM Failure Supervisor α

def Supervisor.isProcessRunning (s : Supervisor) (processID : ProcessID) : Bool :=
  (s.processes processID).any OSProcess.running

def Supervisor.mark (s : Supervisor) (processID : ProcessID) (f : OSProcess → OSProcess) :
    Supervisor :=
  { s with processes := fun other =>
      if other = processID then (s.processes other).map f else s.processes other }

/-- A signal to terminate. -/
def Supervisor.tell (s : Supervisor) (processID : ProcessID) : Supervisor :=
  s.mark processID fun p => { p with told := true }

/-- `if child.isRunning { child.terminate() }`. -/
def Supervisor.terminate (s : Supervisor) (child : ProcessID) : Supervisor :=
  if s.isProcessRunning child then s.tell child else s

/-- A new process. -/
def Supervisor.spawn (s : Supervisor) (owned : Bool) : Supervisor :=
  { s with
    processes := fun other =>
      if other = s.nextProcess then some ⟨true, owned, false⟩ else s.processes other
    nextProcess := s.nextProcess + 1 }

/-- What the shared fields are cleared to, and the state with it. -/
def Supervisor.clear (s : Supervisor) (state : SupervisorState) : Supervisor :=
  { s with state := state, process := none, managedDescriptor := none }

/-! ## What a call waits for -/

inductive Call where
  /-- `waitUntilReady`, at its bootstrap request. -/
  | fetching (child : ProcessID) (bootID : BootID) (descriptor : LocalRunDescriptor)
  /-- `waitUntilReady`, at its sleep. -/
  | sleeping (child : ProcessID) (bootID : BootID) (validated : Option LocalRunDescriptor)
  /-- `adoptRunningLocal`, at its bootstrap request. -/
  | adopting (descriptor : LocalRunDescriptor)
  /-- `stop`, at the bootstrap request of an adopted process. -/
  | verifying (descriptor : LocalRunDescriptor)
  /-- `stop`, at the sleep of its grace period. -/
  | grace (descriptor : LocalRunDescriptor)
  | checking (ready : ReadyLocal)

/-- What one iteration of `waitUntilReady` finds: whether the deadline has passed, and
what the descriptor file says that is not older than this run. -/
structure Poll where
  timedOut : Bool
  file : Except String (Option LocalRunDescriptor)

/-- What `start` finds on its way to the first `await`. -/
structure StartInput where
  conflict : Except String (Option ℕ)
  launchPlan : Option String
  runDirectory : Option String
  processLog : Option String
  run : Option String
  poll : Poll

/-- What a suspended call finds when it goes on: what the awaited call throws, the next
poll, whether the grace period is over, and what the check of a descriptor throws. -/
structure Answer where
  error : Option String
  poll : Poll
  timedOut : Bool
  invalid : Option String

/-! ## Sections -/

def ensure (condition : Bool) (e : Failure) : Section Unit :=
  if condition then pure () else throw e

/-- A call into the system, which may throw. -/
def system (error : Option String) : Section Unit := fault (error.map Failure.other)

def liftExcept {α : Type} : Except Failure α → Section α
  | .ok a => pure a
  | .error e => throw e

/-- `state = try SupervisorReducer.reduce(state: state, event: event)`. -/
def transition (event : SupervisorEvent) : Section Unit := do
  let s ← get
  let state ← liftExcept (reduce s.state event)
  modify fun s => { s with state := state }

/-- `state = (try? SupervisorReducer.reduce(...)) ?? state`. -/
def Supervisor.attempt (s : Supervisor) (event : SupervisorEvent) (otherwise : SupervisorState) :
    Supervisor :=
  match reduce s.state event with
  | .ok state => { s with state := state }
  | .error _ => { s with state := otherwise }

/-- `process == nil, managedDescriptor == nil, !state.isRunningLike`. -/
def Supervisor.idle (s : Supervisor) : Bool :=
  s.process.isNone && s.managedDescriptor.isNone && !s.state.isRunningLike

/-- The guard of `start` and of `adoptRunningLocal`. -/
def requireIdle : Section Unit := do
  let s ← get
  ensure s.idle .alreadyRunning

/-- `try waitUntilReady`, with the descriptor that is published for this run. -/
def checkDescriptor (child : ProcessID) (bootID : BootID) (descriptor : LocalRunDescriptor) :
    Section Unit := do
  ensure (decide (descriptor.bootID = bootID)) .staleBootID
  ensure (decide (descriptor.processID = child))
    (.descriptorProcessMismatch child descriptor.processID)

/-- The descriptor that this iteration of `waitUntilReady` knows. -/
def readDescriptor (child : ProcessID) (bootID : BootID) :
    Option LocalRunDescriptor → Except String (Option LocalRunDescriptor) →
    Section (Option LocalRunDescriptor)
  | some descriptor, _ => pure (some descriptor)
  | none, .error e => throw (.other e)
  | none, .ok none => pure none
  | none, .ok (some descriptor) => do
    checkDescriptor child bootID descriptor
    pure (some descriptor)

/-- A known descriptor is followed by a bootstrap request, none by a sleep. -/
def nextCall (child : ProcessID) (bootID : BootID) : Option LocalRunDescriptor → Call
  | some descriptor => .fetching child bootID descriptor
  | none => .sleeping child bootID none

/-- One iteration of `waitUntilReady`, up to its `await`. -/
def iterate (child : ProcessID) (bootID : BootID) (validated : Option LocalRunDescriptor)
    (poll : Poll) : Section Call := do
  ensure (!poll.timedOut) .startupTimedOut
  let s ← get
  ensure (s.isProcessRunning child) .processExited
  let known ← readDescriptor child bootID validated poll.file
  pure (nextCall child bootID known)

/-- The `catch` of `start`. -/
def startFailed {α : Type} (child : ProcessID) (e : Failure) : Section α := do
  modify fun s => (s.terminate child).clear (.failed e.describing 0)
  throw e

/-- The end of the `do` of `start`. -/
def startReady (descriptor : LocalRunDescriptor) (invalid : Option String) :
    Section (Option Call) := do
  transition (.localReady descriptor invalid)
  modify fun s => { s with managedDescriptor := some descriptor }
  pure none

def checkConflict : Except String (Option ℕ) → Section Unit
  | .error e => throw (.other e)
  | .ok none => pure ()
  | .ok (some port) => do
    modify fun s => { s with state := .failed ("Port " ++ toString port ++ " is already in use") 0 }
    throw (.portInUse port)

def newBootID : Section BootID := do
  let s ← get
  set { s with nextBoot := s.nextBoot + 1 }
  pure s.nextBoot

/-- `child.run()`, which makes the child the process of the actor. -/
def runChild (error : Option String) : Section ProcessID := do
  system error
  let s ← get
  set { s.spawn true with process := some s.nextProcess, managedDescriptor := none }
  pure s.nextProcess

/-- `start`, up to its first `await`. -/
def start (input : StartInput) : Section (Option Call) := do
  requireIdle
  let bootID ← newBootID
  transition (.requestStart bootID)
  checkConflict input.conflict
  system input.launchPlan
  system input.runDirectory
  transition (.runtimeValidated bootID)
  system input.processLog
  let child ← runChild input.run
  transition (.processSpawned child bootID)
  some <$> tryCatch (iterate child bootID none input.poll) (startFailed child)

/-- `adoptRunningLocal`, up to its `await`. -/
def adoptRunningLocal (file : Except String (Option LocalRunDescriptor)) :
    Section (Option Call) := do
  requireIdle
  match file with
  | .error e => throw (.other e)
  | .ok none => pure none
  | .ok (some descriptor) => do
    let s ← get
    pure (if s.isProcessRunning descriptor.processID then some (.adopting descriptor) else none)

def adopted (descriptor : LocalRunDescriptor) : Section (Option Call) := do
  modify fun s => { s.mark descriptor.processID fun p => { p with owned := true } with
    managedDescriptor := some descriptor, state := .ready ⟨descriptor⟩ }
  pure none

/-- `kill(pid, SIGKILL)` for a process that outlives its grace period, and the end of
`stop`. -/
def stopped (descriptor : LocalRunDescriptor) : Section (Option Call) := do
  modify fun s => (s.terminate descriptor.processID).clear .stopped
  pure none

/-- The grace period of `stop`, up to its next sleep. -/
def awaitExit (descriptor : LocalRunDescriptor) (timedOut : Bool) : Section (Option Call) := do
  let s ← get
  if s.isProcessRunning descriptor.processID && !timedOut then pure (some (.grace descriptor))
  else stopped descriptor

/-- `terminate()` of the child that `stop` found, or `SIGTERM` to the process of the
descriptor. -/
def signalTerm (child : Option ProcessID) (descriptor : LocalRunDescriptor) : Section Unit :=
  modify fun s =>
    match child.filter s.isProcessRunning with
    | some child => s.tell child
    | none => s.tell descriptor.processID

/-- `stop` of the process that the descriptor names. -/
def stopManaged (descriptor : LocalRunDescriptor) (timedOut : Bool) : Section (Option Call) := do
  modify fun s => s.attempt .requestStop (.stopping (some descriptor.processID))
  let s ← get
  if s.isProcessRunning descriptor.processID then
    if s.process.isNone then pure (some (.verifying descriptor))
    else do
      signalTerm s.process descriptor
      awaitExit descriptor timedOut
  else do
    modify fun s => s.clear .stopped
    pure none

/-- `stop` where no Local is ready. -/
def stopUnmanaged : Section (Option Call) := do
  modify fun s => { (s.process.map s.terminate).getD s with process := none, state := .stopped }
  pure none

/-- `stop`, up to its first `await`. -/
def stop (timedOut : Bool) : Section (Option Call) := do
  let s ← get
  match s.managedDescriptor with
  | none => stopUnmanaged
  | some descriptor => stopManaged descriptor timedOut

/-- `healthCheck`, up to its `await`. -/
def healthCheck : Section (Option Call) := do
  let s ← get
  match s.state with
  | .ready ready => pure (some (.checking ready))
  | .degraded ready _ => pure (some (.checking ready))
  | _ => pure none

/-- `if case .degraded = state { ... healthRecovered ... }`. -/
def Supervisor.recovered (s : Supervisor) : Supervisor :=
  match s.state with
  | .degraded _ _ => s.attempt .healthRecovered s.state
  | _ => s

/-- What a health check makes of the state. -/
def Supervisor.checked (s : Supervisor) : Option String → Supervisor
  | none => s.recovered
  | some _ => s.attempt .healthFailed s.state

/-- What a suspended call does when it goes on, up to its next `await`. -/
def resume : Call → Answer → Section (Option Call)
  | .fetching child bootID descriptor, answer =>
    match answer.error with
    | none => tryCatch (startReady descriptor answer.invalid) (startFailed child)
    | some _ => pure (some (.sleeping child bootID (some descriptor)))
  | .sleeping child bootID validated, answer =>
    some <$> tryCatch (do
      system answer.error
      iterate child bootID validated answer.poll) (startFailed child)
  | .adopting descriptor, answer => do
    system answer.error
    adopted descriptor
  | .verifying descriptor, answer =>
    match answer.error with
    | some _ => do
      modify fun s => { s with
        state := .failed "Refused to stop an unverified adopted Local process" 0 }
      pure none
    | none => do
      signalTerm none descriptor
      awaitExit descriptor answer.timedOut
  | .grace descriptor, answer => awaitExit descriptor answer.timedOut
  | .checking _, answer => do
    modify fun s => s.checked answer.error
    pure none

end AI2Apps.LocalSupervisor
