import AI2Apps.Lib.Json
import AI2Apps.Lib.MergeSlot
import Mathlib.Algebra.Order.Ring.Rat

/-!
# Streams of generated text

`output_collector.py` and the parts of `engine_core.py` that put outputs into a collector
and take them out: one request, from the moment it is tracked.  The engine loop and the
aborts are the producers, and `stream_outputs` is the consumer, which suspends where it
yields and where it waits.

* `RequestOutput`, `mergeOutputs`: an output, and two of them merged.
* `RequestStreamState`: which outputs the engine loop sends.
* `Stream`, `Event`, `Stream.after`: the interleavings.
-/

namespace AI2Apps.Omlx.Collector

/-! ## Outputs -/

structure RequestOutput where
  requestId : Str
  newTokenIds : List ℤ
  newText : Str
  outputTokenIds : List ℤ
  outputText : Str
  finished : Bool
  finishReason : Option Str
  promptTokens : ℤ
  completionTokens : ℤ
  generatedAt : Option ℚ
  generatedUntil : Option ℚ
  toolCalls : Option (List Json)
  cachedTokens : ℤ
  error : Option Str
  errorCode : Option Str
  errorMetadata : Option (List (Str × Json))

/-- `a or b`, where what is empty is false. -/
def orElse {α : Type} : Option (List α) → Option (List α) → Option (List α)
  | some (x :: xs), _ => some (x :: xs)
  | _, b => b

/-- `_merge_outputs`. -/
def mergeOutputs (existing new : RequestOutput) : RequestOutput where
  requestId := new.requestId
  newTokenIds := existing.newTokenIds ++ new.newTokenIds
  newText := existing.newText ++ new.newText
  outputTokenIds := new.outputTokenIds
  outputText := new.outputText
  finished := new.finished
  finishReason := new.finishReason
  promptTokens := new.promptTokens
  completionTokens := new.completionTokens
  generatedAt := existing.generatedAt <|> new.generatedAt
  generatedUntil := new.generatedUntil <|> existing.generatedUntil
  toolCalls := new.toolCalls
  cachedTokens := new.cachedTokens
  error := orElse new.error existing.error
  errorCode := orElse new.errorCode existing.errorCode
  errorMetadata := orElse new.errorMetadata existing.errorMetadata

/-- `if output.error`. -/
def RequestOutput.failed (o : RequestOutput) : Bool := o.error.any fun e => e ≠ []

/-- The last output of a stream. -/
def RequestOutput.final (o : RequestOutput) : Bool := o.failed || o.finished

theorem orElse_assoc {α : Type} (a b c : Option (List α)) :
    orElse (orElse a b) c = orElse a (orElse b c) := by
  rcases a with _ | ⟨_ | ⟨x, xs⟩⟩ <;> rfl

theorem mergeOutputs_assoc (a b c : RequestOutput) :
    mergeOutputs (mergeOutputs a b) c = mergeOutputs a (mergeOutputs b c) := by
  simp only [mergeOutputs, List.append_assoc, orElse_assoc, Option.orElse_eq_orElse,
    Option.orElse_eq_or, Option.or_assoc]

structure RequestStreamState where
  streamInterval : ℤ
  sentTokens : ℤ

/-- `should_send`. -/
def RequestStreamState.shouldSend (s : RequestStreamState) (totalTokens : ℤ) (finished : Bool) :
    Bool :=
  finished || s.sentTokens = 0 || s.streamInterval ≤ totalTokens - s.sentTokens

/-- How a call of `stream_outputs` ended. -/
inductive Ending where
  /-- There was no collector: the request was reaped, or the engine closed, before the call began. -/
  | missing
  /-- After a finished output. -/
  | finished
  /-- With the error of an output. -/
  | failed
  /-- After a wait that was too long. -/
  | timedOut
  /-- The generator was closed. -/
  | abandoned
  deriving DecidableEq

/-- Where the generator is. -/
inductive Phase where
  | starting
  /-- At `ready.wait()`. -/
  | waiting
  /-- At `yield`. -/
  | yielding (output : RequestOutput)
  | closed (ending : Ending)

/-- A request, its collector and its consumer. -/
structure Stream where
  /-- `output` of the collector. -/
  slot : Option RequestOutput
  /-- The collector is in `_output_collectors`, and its state in `_stream_states`. -/
  tracked : Bool
  sentTokens : ℤ
  /-- The request is in `_finished_at`. -/
  finishedAt : Bool
  /-- `_closed` of the engine. -/
  engineClosed : Bool
  phase : Phase
  /-- The outputs that the collector was given. -/
  given : List RequestOutput
  /-- The outputs that the consumer was given. -/
  yielded : List RequestOutput

/-- What `add_request` sets up. -/
def Stream.initial : Stream := ⟨none, true, 0, false, false, .starting, [], []⟩

inductive Event where
  /-- The engine loop has an output of the request. -/
  | distribute (output : RequestOutput)
  /-- `fail_all_requests` or an abort puts its own. -/
  | signal (output : RequestOutput)
  /-- `_reap_orphaned_collectors` finds the request stale. -/
  | reap
  /-- `EngineCore.close`. -/
  | closeEngine
  /-- The generator goes on to its next suspension. -/
  | advance
  /-- The timer of `wait_for` fires. -/
  | timeout
  /-- The generator is closed where it is suspended. -/
  | abandon

namespace Stream

/-- `put`. -/
def put (s : Stream) (o : RequestOutput) : Stream :=
  { s with slot := MergeSlot.put mergeOutputs s.slot o, given := s.given ++ [o] }

/-- `_mark_request_finished`. -/
def markFinished (s : Stream) : Stream := { s with finishedAt := true }

/-- The engine loop, with the interval of the configuration. -/
def distribute (streamInterval : ℤ) (s : Stream) (o : RequestOutput) : Stream :=
  let s :=
    if s.tracked then
      if streamInterval = 1 then s.put o
      else if RequestStreamState.shouldSend ⟨streamInterval, s.sentTokens⟩ o.completionTokens
          o.finished then
        { s.put o with sentTokens := o.completionTokens }
      else s
    else s
  if o.finished then s.markFinished else s

/-- A closed engine has nothing to abort. -/
def signal (s : Stream) (o : RequestOutput) : Stream :=
  if s.engineClosed then s else (if s.tracked then s.put o else s).markFinished

/-- `_reap_orphaned_collectors` pops, and clears nothing. -/
def reap (s : Stream) : Stream :=
  if s.finishedAt then { s with tracked := false, finishedAt := false } else s

/-- `EngineCore.close` clears the collectors that are tracked, also of a generator that is still
open. -/
def closeEngine (s : Stream) : Stream :=
  if s.engineClosed then s
  else
    { s with
      slot := if s.tracked then none else s.slot
      tracked := false
      finishedAt := false
      engineClosed := true }

/-- `_cleanup_request` at the end of the generator. -/
def close (s : Stream) (ending : Ending) : Stream :=
  { s with
    slot := if s.tracked then none else s.slot
    tracked := false
    finishedAt := false
    phase := .closed ending }

/-- `get_nowait` has an output, which is yielded, or `get` waits for one. -/
def fetch (s : Stream) : Stream :=
  match s.slot with
  | some o => { s with slot := none, phase := .yielding o, yielded := s.yielded ++ [o] }
  | none => { s with phase := .waiting }

def advance (s : Stream) : Stream :=
  match s.phase with
  | .starting =>
    if s.tracked then s.fetch else { s with phase := .closed .missing }
  | .waiting => s.fetch
  | .yielding o =>
    if o.failed then s.close .failed
    else if o.finished then s.close .finished
    else s.fetch
  | .closed _ => s

def timeout (s : Stream) : Stream :=
  match s.phase with
  | .waiting => s.close .timedOut
  | _ => s

def abandon (s : Stream) : Stream :=
  match s.phase with
  | .starting => { s with phase := .closed .abandoned }
  | .waiting | .yielding _ => s.close .abandoned
  | .closed _ => s

def after (streamInterval : ℤ) (s : Stream) : Event → Stream
  | .distribute o => s.distribute streamInterval o
  | .signal o => s.signal o
  | .reap => s.reap
  | .closeEngine => s.closeEngine
  | .advance => s.advance
  | .timeout => s.timeout
  | .abandon => s.abandon

def run (streamInterval : ℤ) (s : Stream) (events : List Event) : Stream :=
  events.foldl (after streamInterval) s

end Stream

end AI2Apps.Omlx.Collector
