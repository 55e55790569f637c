import AI2Apps.Lib.Faults
import AI2Apps.ModelSharing.Jobs
import AI2Apps.ModelSharing.Protocol

/-!
# The buyer

`stream`, `fetchAudio` and `fetchMultimodalArtifact` record the job, dispatch the
request over a Peer transport, verify what comes back with the decoder of the
protocol version, and settle with a delivery receipt.  They share `deliver`; they
differ in the decoder, in what completes the record, and in whether the events
are yielded to a consumer.
-/

namespace AI2Apps.ModelSharing.Requester

open Faults

structure State where
  jobs : Jobs
  yielded : ℕ

/-- An exception; the ledger does not depend on which. -/
inductive Exc where
  | raised
  deriving DecidableEq

abbrev Run (α : Type) := EStateM Exc State α

/-- What every run of the buyer meets before and after the decoder. -/
structure Env where
  /-- `int(value)`; `none` when it raises. -/
  toInt : Json → Option ℤ
  sessionActive : Bool
  grantForReady : Bool
  refreshGrant : Option Exc
  transportGiven : Bool
  peerCore : Bool
  transportFor : Option Exc
  /-- `request.payload()`. -/
  payload : Option Exc
  postStream : Option Exc
  /-- The chunks of the response body; `none` where a read raises. -/
  body : List (Option (List ℕ))
  sign : Option Exc
  settled : Option Json.Object
  /-- What the consumer makes the stream raise at a yield. -/
  consumer : ℕ → Option Exc

def awaitValue {α : Type} (o : Option α) : Run α := orThrow .raised o

def setStatus (contractId : Str) (u : StatusUpdate) : Run Unit := do
  let s ← get
  let jobs ← awaitValue (s.jobs.setStatus contractId u)
  modify fun s => { s with jobs }

/-- The session, the grant and the transport. -/
def prepare (env : Env) : Run Unit := do
  only (¬ env.sessionActive) (throw .raised)
  only (¬ env.grantForReady) (fault env.refreshGrant)
  only (¬ env.transportGiven) do
    only (¬ env.peerCore) (throw .raised)
    fault env.transportFor

/-- `self.jobs.begin`, whose answer the buyer does not look at. -/
def beginJob (contractId : Str) (job : NewJob) : Run Unit := do
  let s ← get
  let (_, jobs) ← awaitValue (s.jobs.begin contractId job)
  modify fun s => { s with jobs }

/-- A decoder as the buyer uses it. -/
structure DecoderApi where
  σ : Type
  init : Decoder σ
  parse : σ → List ℕ → Except String (σ × ModelShareEvent)
  finish : Decoder σ → Except String Unit
  /-- What the record is completed with; `none` where an assertion fails or a
  conversion raises. -/
  completion : Env → Json.Object → σ → Option StatusUpdate
  completes : ∀ env settled s u, completion env settled s = some u → u.status = .completed

/-- `yield event`. -/
def yieldEvent (env : Env) : Run Unit := do
  let s ← get
  modify fun s => { s with yielded := s.yielded + 1 }
  fault (env.consumer s.yielded)

/-- Feed the chunks of the body; `yields` when the events go to a consumer. -/
def readBody (env : Env) (api : DecoderApi) (yields : Bool) :
    Decoder api.σ → List (Option (List ℕ)) → Run (Decoder api.σ)
  | d, [] => pure d
  | _, none :: _ => throw .raised
  | d, some chunk :: chunks =>
    match feed api.parse d chunk with
    | .error _ => throw .raised
    | .ok (d, events) => do
      only yields (forM events fun _ => yieldEvent env)
      readBody env api yields d chunks

/-- The body, the receipt and the completion. -/
def receive (env : Env) (contractId : Str) (api : DecoderApi) (yields : Bool) : Run Unit := do
  let d ← readBody env api yields api.init env.body
  match api.finish d with
  | .error _ => throw .raised
  | .ok () => do
    fault env.sign
    let settled ← awaitValue env.settled
    only (¬ Json.memberEq settled (str "status") (.str (str "settled_pending"))) (throw .raised)
    let completion ← awaitValue (api.completion env settled d.state)
    setStatus contractId completion

/-- One run of the buyer. -/
def deliver (env : Env) (contractId : Str) (job : NewJob) (api : DecoderApi) (yields : Bool) :
    Run Unit := do
  prepare env
  beginJob contractId job
  fault env.payload
  fault env.postStream
  tryCatch (receive env contractId api yields) fun e => do
    setStatus contractId { status := .resultUnknown }
    throw e

/-! ## The three requests -/

/-- What every request of the buyer binds. -/
structure Purchase where
  binding : Binding
  sessionId : Str
  principal : Str
  maxBytes : ℕ

/-- The job of a purchase. -/
def Purchase.job (p : Purchase) (calculatorType : Option Str) (maximumChargeMinor : Json) :
    NewJob where
  sessionId := p.sessionId
  ownerUserId := p.principal
  role := str "buyer"
  requestDigest := p.binding.requestDigest
  calculatorType := calculatorType
  maximumChargeMinor := maximumChargeMinor

def textDecoder (b : Binding) : DecoderApi where
  σ := SseEventDecoder.State b.codec
  init := SseEventDecoder.init b.codec
  parse := SseEventDecoder.parse b
  finish := SseEventDecoder.finish b
  completion := fun _ _ s =>
    s.resultDigest.map fun digest => { status := .completed, resultDigest := some digest }
  completes := fun _ _ _ u h => by
    obtain ⟨digest, -, rfl⟩ := Option.map_eq_some_iff.mp h
    rfl

def audioDecoder (b : Binding) : DecoderApi where
  σ := AudioTtsSseEventDecoder.State b.codec
  init := AudioTtsSseEventDecoder.init b.codec
  parse := AudioTtsSseEventDecoder.parse b
  finish := AudioTtsSseEventDecoder.finish b
  completion := fun _ _ s =>
    s.resultDigest.map fun digest => { status := .completed, resultDigest := some digest }
  completes := fun _ _ _ u h => by
    obtain ⟨digest, -, rfl⟩ := Option.map_eq_some_iff.mp h
    rfl

def multimodalDecoder (b : Binding) (calculatorType : Str) (maxBytes : ℕ)
    (maximumChargeMinor : Json) : DecoderApi where
  σ := MultimodalArtifactSseEventDecoder.State b.codec
  init := MultimodalArtifactSseEventDecoder.init b.codec
  parse := MultimodalArtifactSseEventDecoder.parse b calculatorType maxBytes
  finish := MultimodalArtifactSseEventDecoder.finish b
  completion := fun env settled s =>
    s.resultDigest.bind fun digest => s.actualUsage.bind fun usage =>
      (releasedMinor env.toInt maximumChargeMinor (field settled "chargedMinor")).map fun released =>
        { status := .completed, resultDigest := some digest, actualUsage := some usage,
          chargedMinor := field settled "chargedMinor", releasedMinor := released }
  completes := fun _ _ _ u h => by
    obtain ⟨digest, -, h⟩ := Option.bind_eq_some_iff.mp h
    obtain ⟨usage, -, h⟩ := Option.bind_eq_some_iff.mp h
    obtain ⟨released, -, rfl⟩ := Option.map_eq_some_iff.mp h
    rfl

/-- `stream`, driven by its consumer. -/
def stream (env : Env) (p : Purchase) : Run Unit :=
  deliver env p.binding.contractId (p.job none .null) (textDecoder p.binding) true

def fetchAudio (env : Env) (p : Purchase) : Run Unit :=
  deliver env p.binding.contractId (p.job none .null) (audioDecoder p.binding) false

def fetchMultimodalArtifact (env : Env) (p : Purchase) (calculatorType : Str)
    (maximumChargeMinor : Json) : Run Unit :=
  deliver env p.binding.contractId (p.job (some calculatorType) maximumChargeMinor)
    (multimodalDecoder p.binding calculatorType p.maxBytes maximumChargeMinor) false

end AI2Apps.ModelSharing.Requester
