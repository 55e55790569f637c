import AI2Apps.Lib.TaskTable
import AI2Apps.Processes.Repository

/-!
# The process manager

`processes/manager.py` as the tasks of one event loop.  A task is what it awaits: its
next section runs when that returns or raises, and a call of the repository in a worker
thread takes effect at a step of its own, before the section that goes on with it.

The live map knows a child from the last section of `start` on, but its record can be
found, and cancelled, while `start` is still spawning.  `mark_running` does not look.

* `Pc`, `Task`, `System`: what each task awaits, and the manager.
* `System.goOn`, `System.raise`: the section after an await that returned or raised.
* `Event`, `System.after`, `System.run`: the interleavings.
-/

namespace AI2Apps.Processes

/-- A child process, by its handle. -/
abbrev ChildId := ℕ

structure Child where
  /-- The record it was spawned for. -/
  owner : ℕ
  alive : Bool
  signalled : Bool

inductive Stream where
  | stdout
  | stderr
  deriving DecidableEq

inductive TaskId where
  | external (n : ℕ)
  | reader (id : ℕ) (stream : Stream)
  | watchdog (id : ℕ)
  | waiter (id : ℕ)
  deriving DecidableEq

/-- An activation of `_terminate`. -/
structure Termination where
  id : ℕ
  status : ProcessStatus
  terminal : status.terminal = true
  error : ErrorInfo
  /-- The live child that was found before the record was settled. -/
  child : Option ChildId
  /-- It is called inside the `try` of `_read_output`. -/
  inReader : Bool

/-- The arguments of a `cancel`. -/
structure Target where
  id : ℕ
  sessionId : Str
  runId : Option Str

/-- What a task awaits. -/
inductive Pc where
  /-- `start`, at `create_subprocess_exec`. -/
  | spawning (id : ℕ)
  /-- `_read_output`: the stream, `repository.get`, `repository.append_log`. -/
  | read (id : ℕ)
  | look (id size : ℕ)
  | store (id size : ℕ) (limitReached : Bool)
  /-- `_watchdog`: its first section, the sleep, `repository.get`. -/
  | top (id : ℕ)
  | sleep (id : ℕ)
  | check (id : ℕ)
  /-- `_wait`: its first section, `sleep(0)`, the child, the readers, `repository.get`,
  `repository.settle`. -/
  | begun (id : ℕ)
  | slept (id : ℕ)
  | exit (id : ℕ) (child : ChildId)
  | drain (id : ℕ) (child : ChildId) (code : ℤ)
  | inspect (id : ℕ) (child : ChildId) (code : ℤ)
  | conclude (id : ℕ) (child : ChildId) (code : ℤ)
  /-- `_terminate`: `repository.settle`, the child for a second, the child. -/
  | settle (x : Termination)
  | grace (x : Termination)
  | kill (x : Termination)
  /-- `write_stdin`: the drain, the close, `repository.touch`, `repository.get`. -/
  | drained (id : ℕ) (close : Bool)
  | closing (id : ℕ)
  | touching (id : ℕ) (close : Bool)
  | reporting (id : ℕ)
  /-- `cancel_run`: `repository.active_for_run`. -/
  | listing (runId : Str)
  /-- The cancels that `cancel_run` and `shutdown` gather. -/
  | gathering (targets : List Target)
  /-- A reader that ended with an exception. -/
  | failed

inductive DbAnswer where
  | done
  | record (record : Option ProcessRecord)
  | records (records : List ProcessRecord)

/-- What the worker thread does for a task. -/
inductive Thread where
  | idle
  | requested
  | returned (answer : DbAnswer)

structure Task where
  pc : Pc
  thread : Thread

structure System where
  db : Db
  children : ChildId → Option Child
  nextChild : ChildId
  /-- `_live`. -/
  live : ℕ → Option ChildId
  tasks : TaskId → Option Task
  stopping : Bool
  sessionLimit : ℕ

/-- After `startup`. -/
def System.startup (db : Db) (sessionLimit : ℕ) (now : Time) : System where
  db := db.recoverOrphans now
  children _ := none
  nextChild := 0
  live _ := none
  tasks _ := none
  stopping := false
  sessionLimit := sessionLimit

/-- How an await ends, and what the next section meets. -/
structure Answer where
  /-- The awaited call raises. -/
  raised : Bool
  /-- What it raises is `CancelledError`. -/
  cancelled : Bool
  /-- `resolve_broker_request` raises. -/
  resolveRaises : Bool
  /-- `mark_running` raises. -/
  markRaises : Bool
  /-- `killpg` raises something else than `ProcessLookupError`. -/
  killRaises : Bool
  /-- The exit of a dead child is known. -/
  reaped : Bool
  timedOut : Bool
  /-- The number of bytes that were read, zero at the end of the stream. -/
  size : ℕ
  exitCode : ℤ
  rss : ℕ
  message : Str
  now : Time

/-! ## Tasks -/

def System.setTask (s : System) (t : TaskId) (task : Option Task) : System :=
  { s with tasks := Function.update s.tasks t task }

/-- The task awaits something of the event loop. -/
def System.await (s : System) (t : TaskId) (pc : Pc) : System := s.setTask t (some ⟨pc, .idle⟩)

/-- The task awaits a call in a worker thread. -/
def System.toThread (s : System) (t : TaskId) (pc : Pc) : System :=
  s.setTask t (some ⟨pc, .requested⟩)

def System.over (s : System) (t : TaskId) : System := s.setTask t none

/-- The exception leaves the task; `_wait` sees the one of a reader, if it is not a
`CancelledError`. -/
def System.abort (s : System) (t : TaskId) (cancelled : Bool) : System :=
  match t with
  | .reader id stream =>
    if cancelled then s.over (.reader id stream) else s.await (.reader id stream) .failed
  | t => s.over t

/-! ## Children -/

def System.isDead (s : System) (c : ChildId) : Bool :=
  (s.children c).all fun child => !child.alive

def System.signal (s : System) (c : ChildId) : System :=
  { s with
    children := Function.update s.children c
      ((s.children c).map fun child => { child with signalled := true }) }

def System.exit (s : System) (c : ChildId) : System :=
  { s with
    children := Function.update s.children c
      ((s.children c).map fun child => { child with alive := false }) }

/-! ## `_terminate` -/

/-- The first section: the live child is looked up before the record is settled. -/
def System.terminate (s : System) (t : TaskId) (id : ℕ) (status : ProcessStatus) (code : String)
    (inReader : Bool) (h : status.terminal = true := by rfl) : System :=
  s.toThread t (.settle ⟨id, status, h, ⟨code, none⟩, s.live id, inReader⟩)

/-- An exception inside `_terminate`. -/
def System.terminateRaised (s : System) (t : TaskId) (x : Termination) (cancelled : Bool) :
    System :=
  if x.inReader && !cancelled then s.terminate t x.id .failed "output_capture_failed" false
  else s.abort t cancelled

/-- The section after the record is settled: the process group gets `SIGTERM`. -/
def System.signalFor (s : System) (t : TaskId) (x : Termination) (a : Answer) : System :=
  match x.child with
  | none => s.over t
  | some c =>
    if a.reaped && s.isDead c then s.over t
    else if a.killRaises then s.terminateRaised t x false
    else (s.signal c).await t (.grace x)

/-- The section after a second of grace, `SIGKILL` if it was not enough. -/
def System.graceOver (s : System) (t : TaskId) (x : Termination) (a : Answer) : System :=
  if x.child.all s.isDead then s.over t
  else if !a.timedOut then s
  else if a.killRaises then s.terminateRaised t x false
  else s.await t (.kill x)

/-! ## `start` -/

structure StartInput where
  id : ℕ
  sessionId : Str
  runId : Option Str
  callerId : Str
  limits : ProcessLimits
  /-- The arguments, the workspace or the sandbox are refused. -/
  refused : Bool
  /-- `broker.issue` or `issue_broker_request` raises. -/
  issueRaises : Bool
  /-- `broker.verify` raises. -/
  verifyRaises : Bool
  resolveRaises : Bool
  message : Str
  now : Time

/-- The `except` clause around the spawn. -/
def System.spawnFailed (s : System) (id : ℕ) (resolveRaises : Bool) (message : Str) (now : Time) :
    System :=
  if resolveRaises then s
  else { s with db := s.db.settle id .failed none (some ⟨"spawn_failed", some message⟩) now }

/-- The record that `start` makes, unless it refuses. -/
def System.admits (s : System) (input : StartInput) : Option Db :=
  if s.stopping || s.sessionLimit ≤ s.db.activeCount input.sessionId || input.refused then none
  else s.db.insert? (.fresh input.id input.sessionId input.runId input.callerId input.limits
    input.now)

/-- `start`, as far as the spawn. -/
def System.start (s : System) (t : TaskId) (input : StartInput) : System :=
  match s.admits input with
  | none => s
  | some db =>
    let s := { s with db := db }
    if input.issueRaises then s
    else if input.verifyRaises then
      s.spawnFailed input.id input.resolveRaises input.message input.now
    else s.await t (.spawning input.id)

/-- The tasks of the record are created. -/
def watchers (tasks : TaskId → Option Task) (id : ℕ) : TaskId → Option Task
  | .external n => tasks (.external n)
  | .reader id' stream => if id' = id then some ⟨.read id, .idle⟩ else tasks (.reader id' stream)
  | .watchdog id' => if id' = id then some ⟨.top id, .idle⟩ else tasks (.watchdog id')
  | .waiter id' => if id' = id then some ⟨.begun id, .idle⟩ else tasks (.waiter id')

/-- The last section of `start`: the child is there. -/
def System.spawned (s : System) (t : TaskId) (id : ℕ) (a : Answer) : System :=
  let c := s.nextChild
  let s := { s.over t with
    children := Function.update s.children c (some ⟨id, true, false⟩), nextChild := c + 1 }
  if a.resolveRaises || a.markRaises then s
  else { s with
    db := s.db.markRunning id c a.now
    live := Function.update s.live id (some c)
    tasks := watchers s.tasks id }

/-! ## `_watchdog` and `_read_output` -/

/-- `while process_id in self._live`. -/
def System.loop (s : System) (t : TaskId) (id : ℕ) : System :=
  if (s.live id).isSome then s.await t (.sleep id) else s.over t

def System.checked (s : System) (t : TaskId) (id : ℕ) (record : ProcessRecord) (a : Answer) :
    System :=
  if record.status.terminal then s.over t
  else if (s.live id).isSome && record.limits.memoryBytes < a.rss then
    s.terminate t id .failed "memory_limit_exceeded" false
  else if record.limits.wallTimeSeconds * 1000000 ≤ a.now - record.createdAt then
    s.terminate t id .timedOut "wall_time_exceeded" false
  else if record.limits.idleTimeSeconds * 1000000 ≤ a.now - record.lastActivityAt then
    s.terminate t id .idleTimeout "idle_time_exceeded" false
  else s.loop t id

/-- After a chunk: on, or the end at the output limit. -/
def System.captured (s : System) (t : TaskId) (id : ℕ) (limitReached : Bool) : System :=
  if limitReached then s.terminate t id .outputLimit "output_limit_exceeded" true
  else s.await t (.read id)

def System.looked (s : System) (t : TaskId) (id size : ℕ) (record : ProcessRecord) : System :=
  let remaining := record.limits.outputBytes - record.outputBytes
  let captured := min size remaining
  let limitReached := captured < size || remaining = 0
  if 0 < captured then s.toThread t (.store id captured limitReached)
  else s.captured t id limitReached

/-! ## `_wait` -/

def System.readerIs (s : System) (id : ℕ) (p : Option Pc → Bool) : Bool :=
  p ((s.tasks (.reader id .stdout)).map Task.pc) && p ((s.tasks (.reader id .stderr)).map Task.pc)

def readerDone : Option Pc → Bool
  | none | some .failed => true
  | some _ => false

def readerReturned : Option Pc → Bool
  | none => true
  | some _ => false

/-- The other tasks of the child are cancelled, and the live map forgets it. -/
def System.cleanup (s : System) (t : TaskId) (id : ℕ) : System :=
  { (((s.over (.reader id .stdout)).over (.reader id .stderr)).over (.watchdog id)).over t with
    live := Function.update s.live id none }

/-! ## Sections -/

/-- The section after an await that raised. -/
def System.raise (s : System) (t : TaskId) (a : Answer) : Pc → System
  | .spawning id => (s.over t).spawnFailed id a.resolveRaises a.message a.now
  | .read id | .look id _ | .store id _ _ =>
    if a.cancelled then s.over t else s.terminate t id .failed "output_capture_failed" false
  | .settle x | .grace x | .kill x => s.terminateRaised t x a.cancelled
  | .failed => s
  | _ => s.over t

/-- The section after `repository.get`. -/
def System.goOnWith (s : System) (t : TaskId) (a : Answer) (record : ProcessRecord) : Pc → System
  | .look id size => s.looked t id size record
  | .check id => s.checked t id record a
  | .inspect id c code =>
    if record.status.terminal then s.cleanup t id else s.toThread t (.conclude id c code)
  | _ => s.over t

def Target.of (record : ProcessRecord) : Target := ⟨record.id, record.sessionId, record.runId⟩

/-- The section after an await that returned. -/
def System.goOn (s : System) (t : TaskId) (a : Answer) (answer : DbAnswer) : Pc → System
  | .spawning id => s.spawned t id a
  | .read id => if a.size = 0 then s.over t else s.toThread t (.look id a.size)
  | .store id _ limitReached => s.captured t id limitReached
  | .top id => s.loop t id
  | .sleep id => s.toThread t (.check id)
  | .begun id =>
    match s.live id with
    | some c => s.await t (.exit id c)
    | none => s.await t (.slept id)
  | .slept id =>
    match s.live id with
    | some c => s.await t (.exit id c)
    | none => s.over t
  | .exit id c => if s.isDead c then s.await t (.drain id c a.exitCode) else s
  | .drain id c code =>
    if !s.readerIs id readerDone then s
    else if !s.readerIs id readerReturned then s.over t
    else s.toThread t (.inspect id c code)
  | .conclude id _ _ => s.cleanup t id
  | .settle x => s.signalFor t x a
  | .grace x => s.graceOver t x a
  | .kill x => if x.child.all s.isDead then s.over t else s
  | .drained id close => if close then s.await t (.closing id) else s.toThread t (.touching id false)
  | .closing id => s.toThread t (.touching id true)
  | .touching id _ => s.toThread t (.reporting id)
  | .listing runId =>
    match answer with
    | .records records => s.await t
        (.gathering (records.map fun r => ⟨r.id, r.sessionId, some runId⟩))
    | _ => s
  | .look id size =>
    match answer with
    | .record (some record) => s.goOnWith t a record (.look id size)
    | _ => s.raise t { a with cancelled := false } (.look id size)
  | .check id =>
    match answer with
    | .record (some record) => s.goOnWith t a record (.check id)
    | _ => s.raise t a (.check id)
  | .inspect id c code =>
    match answer with
    | .record (some record) => s.goOnWith t a record (.inspect id c code)
    | _ => s.raise t a (.inspect id c code)
  | .reporting _ => s.over t
  | .gathering _ | .failed => s

/-- A task goes on when what it awaits is there, or raises. -/
def System.resume (s : System) (t : TaskId) (a : Answer) : System :=
  match s.tasks t with
  | none => s
  | some ⟨pc, .requested⟩ => if a.raised then s.raise t a pc else s
  | some ⟨pc, .idle⟩ => if a.raised then s.raise t a pc else s.goOn t a .done pc
  | some ⟨pc, .returned answer⟩ => if a.raised then s.raise t a pc else s.goOn t a answer pc

/-- What a worker thread does. -/
def Pc.work (db : Db) (now : Time) : Pc → Db × DbAnswer
  | .look id _ | .check id | .inspect id _ _ | .reporting id => (db, .record (db.get? id))
  | .store id size _ => (db.appendLog id size now, .done)
  | .conclude id _ code => (db.settle id (if code = 0 then .exited else .failed) (some code)
      (if code = 0 then none else some ⟨"nonzero_exit", none⟩) now, .done)
  | .settle x => (db.settle x.id x.status none (some x.error) now, .done)
  | .touching id close => (db.touch id (!close) now, .done)
  | .listing runId => (db, .records (db.activeForRun runId))
  | _ => (db, .done)

def System.worker (s : System) (t : TaskId) (now : Time) : System :=
  match s.tasks t with
  | some ⟨pc, .requested⟩ =>
    { s with
      db := (pc.work s.db now).1
      tasks := Function.update s.tasks t (some ⟨pc, .returned (pc.work s.db now).2⟩) }
  | _ => s

/-! ## Calls -/

/-- `_owned`: another run's process is not revealed. -/
def System.owned (s : System) (target : Target) : Option ProcessRecord :=
  (s.db.get? target.id).filter fun r =>
    r.sessionId = target.sessionId && (r.runId.isNone || r.runId = target.runId)

/-- `cancel`, as far as its first await. -/
def System.cancel (s : System) (t : TaskId) (target : Target) : System :=
  match s.owned target with
  | none => s
  | some record =>
    if record.status.terminal then s
    else s.terminate t target.id .cancelled "cancelled" false

/-- `write_stdin`, as far as its first await. -/
def System.writeStdin (s : System) (t : TaskId) (target : Target) (size : ℕ) (close : Bool) :
    System :=
  match s.owned target with
  | none => s
  | some record =>
    if 64 * 1024 < size || record.status ≠ .running || (s.live target.id).isNone ||
        !record.stdinOpen then s
    else if 0 < size then s.await t (.drained target.id close)
    else if close then s.await t (.closing target.id)
    else s.toThread t (.touching target.id false)

/-- `shutdown`, as far as the cancels it gathers. -/
def System.shutdown (s : System) (t : TaskId) : System :=
  { s.await t (.gathering ((s.db.rows.filter fun r => (s.live r.id).isSome).map Target.of)) with
    stopping := true }

/-! ## Interleavings -/

inductive Event where
  | start (n : ℕ) (input : StartInput)
  | cancel (n : ℕ) (target : Target)
  | cancelRun (n : ℕ) (runId : Str)
  | writeStdin (n : ℕ) (target : Target) (size : ℕ) (close : Bool)
  | shutdown (n : ℕ)
  /-- A cancel that the task `n` gathers begins, as the task `m`. -/
  | gathered (n place m : ℕ)
  | worker (t : TaskId) (now : Time)
  | resume (t : TaskId) (a : Answer)
  | exit (c : ChildId)

/-- A new task; a name that is in use is not used again. -/
def System.enter (s : System) (n : ℕ) (begin' : TaskId → System) : System :=
  match s.tasks (.external n) with
  | none => begin' (.external n)
  | some _ => s

def System.gatheredTarget (s : System) (n place : ℕ) : Option Target :=
  match s.tasks (.external n) with
  | some ⟨.gathering targets, _⟩ => targets[place]?
  | _ => none

def System.after (s : System) : Event → System
  | .start n input => s.enter n fun t => s.start t input
  | .cancel n target => s.enter n fun t => s.cancel t target
  | .cancelRun n runId => s.enter n fun t => s.toThread t (.listing runId)
  | .writeStdin n target size close => s.enter n fun t => s.writeStdin t target size close
  | .shutdown n => s.enter n fun t => s.shutdown t
  | .gathered n place m =>
    match s.gatheredTarget n place with
    | none => s
    | some target => s.enter m fun t => s.cancel t target
  | .worker t now => s.worker t now
  | .resume t a => s.resume t a
  | .exit c => s.exit c

def System.run (s : System) (events : List Event) : System := events.foldl System.after s

end AI2Apps.Processes
