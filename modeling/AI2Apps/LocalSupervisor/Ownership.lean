import AI2Apps.LocalSupervisor.Sections
import Mathlib.Logic.Function.Basic

/-!
# The supervisor owns its Local process

Any number of calls of the supervisor are in flight; the sections of different calls
interleave, processes end and others appear.

A call that goes on after an `await` clears or replaces the fields that name the Local
process, and does not look whether they are still its own: another call can have
spawned or adopted a process in the meantime, and it is forgotten while it runs.

* `System`, `Event`, `System.run`: the interleavings.
* `Owned`, `Quiet`, `Harmless`: what is promised, and the condition.
* `Invariant`: what holds between the sections.
-/

namespace AI2Apps.LocalSupervisor

open Faults

/-! ## Interleavings -/

structure System where
  actor : Supervisor
  calls : ℕ → Option Call

def System.initial : System :=
  ⟨⟨.stopped, none, none, fun _ => none, 1, 0⟩, fun _ => none⟩

inductive Event where
  | start (id : ℕ) (input : StartInput)
  | adoptRunningLocal (id : ℕ) (file : Except String (Option LocalRunDescriptor))
  | stop (id : ℕ) (timedOut : Bool)
  | healthCheck (id : ℕ)
  | resume (id : ℕ) (answer : Answer)
  /-- A process ends. -/
  | exit (processID : ProcessID)
  /-- A process that the supervisor has nothing to do with. -/
  | appear

/-- The call runs a section and waits for what it says, or is over. -/
def System.perform (s : System) (id : ℕ) (section' : Section (Option Call)) : System :=
  match section'.run s.actor with
  | .ok call actor => ⟨actor, Function.update s.calls id call⟩
  | .error _ actor => ⟨actor, Function.update s.calls id none⟩

/-- The first section of a call; an identifier that is in use is not used again. -/
def System.enter (s : System) (id : ℕ) (section' : Section (Option Call)) : System :=
  match s.calls id with
  | none => s.perform id section'
  | some _ => s

def System.after (s : System) : Event → System
  | .start id input => s.enter id (LocalSupervisor.start input)
  | .adoptRunningLocal id file => s.enter id (LocalSupervisor.adoptRunningLocal file)
  | .stop id timedOut => s.enter id (LocalSupervisor.stop timedOut)
  | .healthCheck id => s.enter id LocalSupervisor.healthCheck
  | .resume id answer =>
    match s.calls id with
    | none => s
    | some call => s.perform id (LocalSupervisor.resume call answer)
  | .exit processID =>
    { s with actor := s.actor.mark processID fun p => { p with running := false } }
  | .appear => { s with actor := s.actor.spawn false }

def System.run (s : System) : List Event → System
  | [] => s
  | event :: rest => (s.after event).run rest

/-! ## What is promised -/

/-- A Local process that nobody has told to terminate. -/
def OSProcess.live (p : OSProcess) : Bool := p.running && p.owned && !p.told

def Supervisor.live (s : Supervisor) (processID : ProcessID) : Bool :=
  (s.processes processID).any OSProcess.live

/-- The process that `process` or `managedDescriptor` names. -/
def Supervisor.Records (s : Supervisor) (processID : ProcessID) : Prop :=
  s.process = some processID ∨ ∃ d, s.managedDescriptor = some d ∧ d.processID = processID

/-- At most one live process, and it is the one on record. -/
structure Owned (s : Supervisor) : Prop where
  single : ∀ p q, s.live p = true → s.live q = true → p = q
  recorded : ∀ p, s.live p = true → s.Records p

def SupervisorState.isReady : SupervisorState → Bool
  | .ready _ | .degraded _ _ => true
  | _ => false

def SupervisorState.isIdle : SupervisorState → Bool
  | .stopped | .failed _ _ => true
  | _ => false

/-- `start` is refused: the actor is taken to be running, or in a state that does not start. -/
def Failure.isRejection : Failure → Bool
  | .alreadyRunning | .invalidTransition _ _ => true
  | _ => false

/-- What holds when no call is in flight. -/
structure Quiet (s : Supervisor) : Prop where
  ready : s.state.isReady = true ↔ s.managedDescriptor ≠ none
  idle : s.managedDescriptor = none → s.state.isIdle = true ∧ s.process = none
  startable : s.state.isIdle = true → ∀ input e s', (start input).run s = .error e s' →
    e.isRejection = false

/-! ## The condition -/

/-- No process but this one is live. -/
def Supervisor.OnlyLive (s : Supervisor) (own : ProcessID) : Prop :=
  ∀ p, s.live p = true → p = own

/-- Nothing throws between the request of `start` and its child; a port in use may be
found. -/
def StartInput.Sound (input : StartInput) : Prop :=
  match input.conflict with
  | .error _ => False
  | .ok (some _) => True
  | .ok none => input.launchPlan = none ∧ input.runDirectory = none ∧
      input.processLog = none ∧ input.run = none

/-- The descriptor is the one of this run. -/
def LocalRunDescriptor.IsOf (descriptor : LocalRunDescriptor) (child : ProcessID)
    (bootID : BootID) : Prop := descriptor.bootID = bootID ∧ descriptor.processID = child

/-- The descriptor file does not say that another Local runs. -/
def Poll.Fits (poll : Poll) (child : ProcessID) (bootID : BootID) : Prop :=
  match poll.file with
  | .error _ => False
  | .ok none => True
  | .ok (some descriptor) => descriptor.IsOf child bootID

/-- `waitUntilReady` goes on polling. -/
def Supervisor.PollsOn (s : Supervisor) (child : ProcessID) (bootID : BootID)
    (validated : Option LocalRunDescriptor) (poll : Poll) : Prop :=
  poll.timedOut = false ∧ s.isProcessRunning child = true ∧
    (validated = none → poll.Fits child bootID)

/-- The grace period is over, or the process. -/
def Supervisor.Expired (s : Supervisor) (descriptor : LocalRunDescriptor) (timedOut : Bool) :
    Prop := s.isProcessRunning descriptor.processID = false ∨ timedOut = true

/-- A suspended call clears or replaces the record only where no process but its own is
live, and `stop` does not give up on an adopted process that is on record. -/
def Call.Harmless (s : Supervisor) (answer : Answer) : Call → Prop
  | .fetching child _ descriptor => answer.error = none →
      (∃ e, reduce s.state (.localReady descriptor answer.invalid) = .error e) → s.OnlyLive child
  | .sleeping child bootID validated =>
      ¬ (answer.error = none ∧ s.PollsOn child bootID validated answer.poll) → s.OnlyLive child
  | .adopting descriptor => answer.error = none → s.OnlyLive descriptor.processID
  | .verifying descriptor =>
      (answer.error ≠ none → s.managedDescriptor = none) ∧
      (answer.error = none → s.Expired descriptor answer.timedOut →
        s.OnlyLive descriptor.processID)
  | .grace descriptor => s.Expired descriptor answer.timedOut → s.OnlyLive descriptor.processID
  | .checking _ => True

def Harmless (s : System) : Event → Prop
  | .start id input => s.calls id = none → s.actor.idle = true → input.Sound
  | .resume id answer => ∀ call, s.calls id = some call → call.Harmless s.actor answer
  | _ => True

/-- Every event of the history meets the condition when it comes. -/
def HarmlessThroughout (s : System) : List Event → Prop
  | [] => True
  | event :: rest => Harmless s event ∧ HarmlessThroughout (s.after event) rest

/-! ## The invariant -/

/-- The child and the boot of a `start` that waits for its Local. -/
def Call.starting : Call → Option (ProcessID × BootID)
  | .fetching child bootID _ | .sleeping child bootID _ => some (child, bootID)
  | _ => none

def Call.isStop : Call → Bool
  | .verifying _ | .grace _ => true
  | _ => false

/-- What a call carries is from its own run. -/
def Call.Fits (s : Supervisor) : Call → Prop
  | .fetching child bootID descriptor => bootID < s.nextBoot ∧ descriptor.IsOf child bootID
  | .sleeping child bootID validated => bootID < s.nextBoot ∧
      ∀ descriptor, validated = some descriptor → descriptor.IsOf child bootID
  | _ => True

/-- What the state says of the record and of the calls. -/
def StateFits (s : System) : SupervisorState → Prop
  | .ready _ | .degraded _ _ => s.actor.managedDescriptor ≠ none
  | .stopping _ => s.actor.managedDescriptor ≠ none ∧
      ∃ id call, s.calls id = some call ∧ call.isStop = true
  | .migrating processID bootID => s.actor.managedDescriptor = none ∧
      s.actor.process = some processID ∧ bootID < s.actor.nextBoot ∧
      (∃ id call, s.calls id = some call ∧ call.starting = some (processID, bootID)) ∧
      ∀ id call child, s.calls id = some call → call.starting = some (child, bootID) →
        child = processID
  | .stopped | .failed _ _ => s.actor.managedDescriptor = none
  | .validatingRuntime _ | .starting _ => False

structure Invariant (s : System) : Prop where
  owned : Owned s.actor
  /-- A live child is the process of the descriptor. -/
  paired : ∀ child d, s.actor.process = some child → s.actor.managedDescriptor = some d →
    s.actor.live child = true → child = d.processID
  state : StateFits s s.actor.state
  /-- A child without a descriptor belongs to a `start` in flight. -/
  pending : ∀ child, s.actor.process = some child → s.actor.managedDescriptor = none →
    ∃ id call bootID, s.calls id = some call ∧ call.starting = some (child, bootID)
  calls : ∀ id call, s.calls id = some call → call.Fits s.actor
  fresh : ∀ p, s.actor.nextProcess ≤ p → s.actor.processes p = none
  positive : 0 < s.actor.nextProcess

end AI2Apps.LocalSupervisor
