import AI2Apps.Lib.Cursors
import AI2Apps.Lib.Json

/-!
# The event store and its streams

`events/store.py`, `events/bus.py` and `events/stream.py`, with the transactions of
`storage/database.py` that append events.  A transaction numbers its events when it
commits; only then do its hooks notify the bus, and the loop offers a wake-up to the
queue of a subscriber, which has one slot.  A store that was made without a bus appends
to the same table and notifies nobody.  A client that loses its stream opens another one
after the last event it has seen.

* `EventStore.transaction`, `EventStore.listAfter`: appending and replay.
* `Pc`, `System`: one client, its stream and the transactions around it.
* `Event`, `System.after`, `System.run`: the interleavings.
-/

namespace AI2Apps.Events

/-! ## The store -/

structure EventRecord where
  sequence : ℤ
  id : Str
  type : Str
  occurredAt : Str
  appInstanceId : Option Str
  sessionId : Option Str
  subjectId : Str
  traceId : Option Str
  schemaVersion : ℤ
  payload : Json

/-- What `append_in_transaction` is given; the id and the time are the drawn ones. -/
structure NewEvent where
  id : Str
  type : Str
  occurredAt : Str
  appInstanceId : Option Str
  sessionId : Option Str
  subjectId : Str
  traceId : Option Str
  schemaVersion : ℤ
  payload : Json

/-- The checks of the table. -/
def NewEvent.valid (e : NewEvent) : Bool :=
  e.type ≠ [] && e.subjectId ≠ [] && 1 ≤ e.schemaVersion &&
    (e.sessionId.isNone || e.appInstanceId.isSome)

def NewEvent.record (e : NewEvent) (sequence : ℤ) : EventRecord where
  sequence
  id := e.id
  type := e.type
  occurredAt := e.occurredAt
  appInstanceId := e.appInstanceId
  sessionId := e.sessionId
  subjectId := e.subjectId
  traceId := e.traceId
  schemaVersion := e.schemaVersion
  payload := e.payload

/-- One append of a transaction, through a store with a bus or without. -/
structure Append where
  event : NewEvent
  bus : Bool

structure EventStore where
  events : List EventRecord
  /-- The largest number that was given out. -/
  lastSequence : ℤ

def EventStore.empty : EventStore := ⟨[], 0⟩

/-- `append_in_transaction`: the next number, or an `IntegrityError`. -/
def EventStore.append (store : EventStore) (e : NewEvent) : Option EventStore :=
  if e.valid && store.events.all fun old => old.id ≠ e.id then
    some ⟨store.events ++ [e.record (store.lastSequence + 1)], store.lastSequence + 1⟩
  else none

/-- The events of one transaction: all of them, or none. -/
def EventStore.transaction (store : EventStore) (es : List NewEvent) : Option EventStore :=
  es.foldlM EventStore.append store

structure Filter where
  sessionId : Option Str
  appInstanceId : Option Str
  subjectId : Option Str

/-- The clauses of the query that are there. -/
def Filter.selects (f : Filter) (e : EventRecord) : Bool :=
  f.sessionId.all (fun s => e.sessionId = some s) &&
    f.appInstanceId.all (fun a => e.appInstanceId = some a) &&
    f.subjectId.all fun s => e.subjectId = s

/-- `list_after`, or `none` for a `ValueError`. -/
def EventStore.listAfter (store : EventStore) (f : Filter) (afterSequence : ℤ) (limit : ℕ) :
    Option (List EventRecord) :=
  if afterSequence < 0 then none
  else if ¬ (1 ≤ limit ∧ limit ≤ 1000) then none
  else
    some ((store.events.filter fun e => afterSequence < e.sequence && f.selects e).take limit)

/-! ## A client and its stream -/

/-- Where the generator `stream_events` is. -/
inductive Pc where
  | closed
  /-- Before it subscribes. -/
  | starting
  /-- At `list_after`. -/
  | reading
  /-- The events that are still to be yielded, and whether the batch was full. -/
  | replaying (rows : List EventRecord) (full : Bool)
  /-- At `wake_queue.get()`. -/
  | waiting

/-- The bus knows the stream. -/
def Pc.subscribed : Pc → Bool
  | .closed | .starting => false
  | _ => true

structure System where
  store : EventStore
  /-- The last number that was given out when a transaction last owed a notification. -/
  announced : ℤ
  /-- Notifications owed by transactions that have committed. -/
  hooks : ℕ
  /-- Calls of `_offer` scheduled on the loop. -/
  offers : ℕ
  /-- The slot of the wake queue. -/
  wake : Bool
  pc : Pc
  cursor : ℤ
  /-- Yielded, and not yet with the client. -/
  sent : List EventRecord
  received : List EventRecord
  /-- `Last-Event-ID`. -/
  clientCursor : ℤ

/-- A client that asks for what comes after `start`. -/
def System.initial (start : ℤ) : System :=
  ⟨.empty, 0, 0, 0, false, .closed, start, [], [], start⟩

inductive Event where
  | commit (appends : List Append)
  /-- A hook of a committed transaction runs. -/
  | notify
  /-- A notification without an event of its own. -/
  | stray
  | offer
  | connect
  | subscribe
  /-- `list_after` returns. -/
  | read
  /-- The generator is resumed: it yields the next event, or goes on. -/
  | next
  /-- The wake queue has an item. -/
  | take
  /-- The heartbeat. -/
  | timeout
  /-- The client receives the oldest event on the way. -/
  | deliver
  /-- The connection is lost, and what is on the way with it. -/
  | disconnect

/-- `notify`: the subscriber is there or not. -/
def System.notified (s : System) : System :=
  if s.pc.subscribed then { s with offers := s.offers + 1 } else s

/-- The connection is gone, with the generator and what was on the way. -/
def System.disconnected (s : System) : System :=
  { s with pc := .closed, cursor := s.clientCursor, sent := [] }

/-- A transaction has committed: each append through a store with a bus owes a notification. -/
def System.committed (s : System) (appends : List Append) (store : EventStore) : System :=
  { s with
    store
    announced := if appends.any Append.bus then store.lastSequence else s.announced
    hooks := s.hooks + appends.countP Append.bus }

def System.after (f : Filter) (batch : ℕ) (s : System) : Event → System
  | .commit appends =>
    match s.store.transaction (appends.map Append.event) with
    | some store => s.committed appends store
    | none => s
  | .notify => if s.hooks = 0 then s else { s with hooks := s.hooks - 1 }.notified
  | .stray => s.notified
  | .offer => if s.offers = 0 then s else { s with offers := s.offers - 1, wake := true }
  | .connect =>
    match s.pc with
    | .closed => { s.disconnected with pc := .starting }
    | _ => s
  | .subscribe =>
    match s.pc with
    | .starting => { s with pc := .reading, offers := 0, wake := false }
    | _ => s
  | .read =>
    match s.pc with
    | .reading =>
      match s.store.listAfter f s.cursor batch with
      | some rows => { s with pc := .replaying rows (rows.length = batch) }
      | none => s.disconnected
    | _ => s
  | .next =>
    match s.pc with
    | .replaying (e :: rows) full =>
      { s with pc := .replaying rows full, cursor := e.sequence, sent := s.sent ++ [e] }
    | .replaying [] full => { s with pc := if full then .reading else .waiting }
    | _ => s
  | .take =>
    match s.pc with
    | .waiting => if s.wake then { s with pc := .reading, wake := false } else s
    | _ => s
  | .timeout =>
    match s.pc with
    | .waiting => { s with pc := .reading }
    | _ => s
  | .deliver =>
    match s.sent with
    | e :: sent => { s with sent, received := s.received ++ [e], clientCursor := e.sequence }
    | [] => s
  | .disconnect => s.disconnected

def System.run (f : Filter) (batch : ℕ) (s : System) (events : List Event) : System :=
  events.foldl (System.after f batch) s

end AI2Apps.Events
