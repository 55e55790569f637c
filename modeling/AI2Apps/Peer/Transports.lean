import AI2Apps.Lib.Faults
import AI2Apps.Lib.TextOrder
import Mathlib.Data.List.Basic

/-!
# The direct QUIC and HTTPS relay transports

Both transports send one request and classify what went wrong in a
`PeerTransportError`.  Every await, and every write, is a point at which the
environment may raise; the state is what has been handed to the network.

* `DirectQuic.postStream`, `DirectQuic.post`: the QUIC exchange, which sets its
  `dispatched` flag after the final drain.
* `Relay.postStream`, `Relay.post`: the HTTPS exchange, one `except` clause
  around the whole client call.
* `directThenRelay`: the fallback, which tries the relay when the direct error
  is retryable and its result is not unknown.
-/

namespace AI2Apps.Peer

open Faults

/-- What an await can raise. -/
inductive NetExc where
  | timeout
  | os
  | direct (code : String)
  | httpTimeout
  | httpTransport
  /-- Anything else: a cancellation, a value error. -/
  | other
  deriving DecidableEq

structure PeerTransportError where
  code : String
  message : String
  retryable : Bool
  resultUnknown : Bool
  deriving DecidableEq

inductive Exc where
  | net (e : NetExc)
  | transport (e : PeerTransportError)
  deriving DecidableEq

/-- An await at which the environment may raise. -/
def await {σ : Type} (f : Option NetExc) : EStateM Exc σ Unit := fault (f.map .net)

section Await

variable {σ : Type} {Q : Unit → σ → Prop} {E : Exc → σ → Prop} {s : σ}

@[simp] theorem wp_await_none : wp (await none : EStateM Exc σ Unit) Q E s ↔ Q () s := Iff.rfl

@[simp] theorem wp_await_some (e : NetExc) :
    wp (await (some e) : EStateM Exc σ Unit) Q E s ↔ E (.net e) s := Iff.rfl

end Await

/-- One read of a response body. -/
inductive BodyRead where
  | chunk (bytes : List ℕ)
  | finish
  | fails (e : NetExc)

/-! ## Direct QUIC -/

namespace DirectQuic

/-- The records handed to the QUIC client. -/
inductive Record where
  | clientHello
  | requestHead (path : Str)
  | requestBody (chunk : List ℕ)
  | requestEnd
  deriving DecidableEq

structure State where
  sent : List Record
  dispatched : Bool

def init : State := ⟨[], false⟩

/-- The points of the exchange, in program order. -/
structure Env where
  connect : Option NetExc
  createStream : Option NetExc
  begin : Option NetExc
  writeHello : Option NetExc
  drainHello : Option NetExc
  readHello : Option NetExc
  checkHello : Option NetExc
  finish : Option NetExc
  writeHead : Option NetExc
  writeBody : ℕ → Option NetExc
  writeEnd : Option NetExc
  drain : Option NetExc
  readHead : Option NetExc
  decodeHead : Option NetExc
  /-- Closing the connection in the `except` clause. -/
  exit : Option NetExc
  status : Option NetExc
  body : List BodyRead
  /-- Closing the connection in the `finally` clause of the body. -/
  closeBody : Option NetExc

def maxRecordPayload : ℕ := 1048576

def hand (r : Record) : EStateM Exc State Unit := modify fun s => { s with sent := s.sent ++ [r] }

/-- `except (TimeoutError, OSError, PeerDirectError)`. -/
def caught : NetExc → Bool
  | .timeout | .os | .direct _ => true
  | _ => false

/-- `error.code` of a `PeerDirectError`. -/
def failureCode : NetExc → String
  | .direct code => code
  | _ => "DIRECT_QUIC_FAILED"

/-- The slices of the payload that become body records. -/
def chunks (payload : List ℕ) : List (List ℕ) := payload.toChunks (maxRecordPayload - 16)

/-- Everything up to the write of `REQUEST_END`. -/
def sendRequest (env : Env) (path : Str) (payload : List ℕ) : EStateM Exc State Unit := do
  await env.connect
  await env.createStream
  await env.begin
  await env.writeHello
  hand .clientHello
  await env.drainHello
  await env.readHello
  await env.checkHello
  await env.finish
  await env.writeHead
  hand (.requestHead path)
  forM (chunks payload).zipIdx fun p => do
    await (env.writeBody p.2)
    hand (.requestBody p.1)
  await env.writeEnd
  hand .requestEnd

def postStream (env : Env) (ownGrant path grant : Str) (payload : List ℕ) :
    EStateM Exc State Unit := do
  if grant ≠ ownGrant then
    throw (.transport ⟨"DIRECT_GRANT_REJECTED", "Direct Grant changed before dispatch.", false, false⟩)
  tryCatch
    (do
      sendRequest env path payload
      await env.drain
      modify fun s => { s with dispatched := true }
      await env.readHead
      await env.decodeHead)
    (fun e =>
      match e with
      | .net e => do
        if caught e then
          await env.exit
          let s ← get
          throw (.transport
            { code := if s.dispatched then "DIRECT_RESULT_UNKNOWN" else failureCode e
              message :=
                if s.dispatched then "Direct QUIC ended after dispatch."
                else "Direct QUIC is unavailable."
              retryable := !s.dispatched
              resultUnknown := s.dispatched })
        else throw (.net e)
      | e => throw e)
  await env.status

/-- The reads of the response body, up to the byte limit. -/
def readBody (maxResponseBytes : ℕ) : ℕ → List BodyRead → EStateM Exc State Unit
  | _, [] => throw (.net (.direct "DIRECT_QUIC_FAILED"))
  | _, .finish :: _ => pure ()
  | _, .fails e :: _ => throw (.net e)
  | count, .chunk bytes :: reads => do
    if maxResponseBytes < count + bytes.length then
      throw (.transport ⟨"PEER_RESPONSE_LIMIT_EXCEEDED",
        "Peer response exceeded the Session byte limit.", false, false⟩)
    readBody maxResponseBytes (count + bytes.length) reads

/-- The generator that reads the body and closes the connection. -/
def body (env : Env) (maxResponseBytes : ℕ) : EStateM Exc State Unit := do
  tryCatch (readBody maxResponseBytes 0 env.body)
    (fun e => do
      await env.closeBody
      match e with
      | .net .os | .net .timeout | .net (.direct _) =>
        throw (.transport ⟨"DIRECT_RESULT_UNKNOWN",
          "Direct QUIC ended after request dispatch.", false, true⟩)
      | e => throw e)
  await env.closeBody

def post (env : Env) (ownGrant path grant : Str) (payload : List ℕ) (maxResponseBytes : ℕ) :
    EStateM Exc State Unit := do
  postStream env ownGrant path grant payload
  body env maxResponseBytes

/-- The complete request has been handed to the QUIC client. -/
def Complete (s : State) : Prop := .requestEnd ∈ s.sent

instance : DecidablePred Complete := fun s => inferInstanceAs (Decidable (.requestEnd ∈ s.sent))

end DirectQuic

/-! ## HTTPS relay -/

namespace Relay

/-- How many of the client's writes of the request have been handed to the network. -/
structure State where
  written : ℕ

def init : State := ⟨0⟩

/-- The points of the client call.  The client makes `writes + 1` writes for a
request; a write is handed over before its await can raise. -/
structure Env where
  acquire : Option NetExc
  connect : Option NetExc
  writes : ℕ
  write : ℕ → Option NetExc
  readHead : Option NetExc
  readBody : Option NetExc
  status : ℕ
  /-- The length of a body read at once, by `post`. -/
  bodyLength : ℕ
  /-- The reads of a streamed body, by the consumer of `postStream`. -/
  body : List BodyRead
  close : Option NetExc

def modelSharePath : Str := str "/v1/model-share/peer/v1/inference"

def messagerPaths : List Str :=
  [str "/v1/messager/peer/v2/handshakes", str "/v1/messager/peer/v2/messages"]

/-- `except (httpx.TimeoutException, httpx.TransportError)`. -/
def caught : NetExc → Bool
  | .httpTimeout | .httpTransport => true
  | _ => false

/-- The client call up to the response head. -/
def send (env : Env) : EStateM Exc State Unit := do
  await env.acquire
  await env.connect
  forM (List.range (env.writes + 1)) fun i => do
    modify fun s => { s with written := s.written + 1 }
    await (env.write i)
  await env.readHead

def checkRequest (pathAllowed : Bool) (grant : Str) : EStateM Exc State Unit := do
  if ¬ pathAllowed then
    throw (.transport ⟨"PEER_RELAY_PATH_FORBIDDEN", "Relay path is not allowed.", false, false⟩)
  if ¬ (1 ≤ grant.length ∧ grant.length ≤ 8192) then
    throw (.transport ⟨"PEER_GRANT_INVALID", "Peer Grant is invalid.", false, false⟩)

def unavailable : PeerTransportError :=
  ⟨"PEER_RELAY_UNAVAILABLE", "Peer Relay is unavailable.", true, false⟩

def rejected (status : ℕ) : PeerTransportError where
  code := "PEER_RELAY_REJECTED"
  message := "Peer Relay rejected the request."
  retryable := status ∈ [401, 403, 409, 429, 503]
  resultUnknown := 500 ≤ status

def postStream (env : Env) (path grant : Str) : EStateM Exc State Unit := do
  checkRequest (path = modelSharePath) grant
  tryCatch (send env) (fun e =>
    match e with
    | .net e => do
      if caught e then
        await env.close
        throw (.transport unavailable)
      else throw (.net e)
    | e => throw e)
  if env.status ≠ 200 then
    await env.close
    throw (.transport (rejected env.status))

/-- The client's context, which closes it on return and on exception. -/
def withClient (env : Env) : EStateM Exc State Unit := do
  tryCatch (do send env; await env.readBody) (fun e => do await env.close; throw e)
  await env.close

def post (env : Env) (path grant : Str) (maxResponseBytes : ℕ) : EStateM Exc State Unit := do
  checkRequest (path ∈ messagerPaths) grant
  tryCatch (withClient env) (fun e =>
    match e with
    | .net e => if caught e then throw (.transport unavailable) else throw (.net e)
    | e => throw e)
  if env.status ∉ [200, 201] then
    throw (.transport (rejected env.status))
  if maxResponseBytes < env.bodyLength then
    throw (.transport ⟨"PEER_RESPONSE_LIMIT_EXCEEDED",
      "Peer response exceeded the Session byte limit.", false, false⟩)

/-- The reads of the streamed body, up to the byte limit. -/
def readBounded (maxResponseBytes : ℕ) : ℕ → List BodyRead → EStateM Exc State Unit
  | _, [] => pure ()
  | _, .finish :: _ => pure ()
  | _, .fails e :: _ => throw (.net e)
  | count, .chunk bytes :: reads => do
    if maxResponseBytes < count + bytes.length then
      throw (.transport ⟨"PEER_RESPONSE_LIMIT_EXCEEDED",
        "Peer response exceeded the Session byte limit.", false, false⟩)
    readBounded maxResponseBytes (count + bytes.length) reads

/-- The generator that `postStream` returns. -/
def boundedBody (env : Env) (maxResponseBytes : ℕ) : EStateM Exc State Unit := do
  tryCatch (readBounded maxResponseBytes 0 env.body) (fun e => do await env.close; throw e)
  await env.close

/-- Every write of the request has been handed to the network. -/
def Complete (env : Env) (s : State) : Prop := s.written = env.writes + 1

instance (env : Env) : DecidablePred (Complete env) := fun s =>
  inferInstanceAs (Decidable (s.written = env.writes + 1))

end Relay

/-! ## Fallback -/

/-- Run on the first part of a pair of states. -/
def onDirect {α : Type} (x : EStateM Exc DirectQuic.State α) :
    EStateM Exc (DirectQuic.State × Relay.State) α := fun s =>
  match x s.1 with
  | .ok a s' => .ok a (s', s.2)
  | .error e s' => .error e (s', s.2)

/-- Run on the second part of a pair of states. -/
def onRelay {α : Type} (x : EStateM Exc Relay.State α) :
    EStateM Exc (DirectQuic.State × Relay.State) α := fun s =>
  match x s.2 with
  | .ok a s' => .ok a (s.1, s')
  | .error e s' => .error e (s.1, s')

/-- `DirectThenRelayTransport.post` and `post_stream`. -/
def directThenRelay (direct : EStateM Exc DirectQuic.State Unit)
    (relay : EStateM Exc Relay.State Unit) : EStateM Exc (DirectQuic.State × Relay.State) Unit :=
  tryCatch (onDirect direct) (fun e =>
    match e with
    | .transport error =>
      if !error.retryable || error.resultUnknown then throw (.transport error) else onRelay relay
    | e => throw e)

end AI2Apps.Peer
