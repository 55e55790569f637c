import AI2Apps.Lib.Base64Url
import AI2Apps.Lib.JsonText
import AI2Apps.Lib.Utf8
import AI2Apps.Peer.DirectRecords
import AI2Apps.Peer.Grants
import AI2Apps.Peer.Transports

/-!
# The direct QUIC exchange, byte by byte

The two ends of one QUIC stream.  Each is a function of the bytes that reach it before its
stream ends, and says what it writes; a stream that is cut, and an end that closes early,
are bytes that do not arrive.

* `canonicalJson`, `decodeObject`: the objects inside the hellos and heads.
* `readBody`: the loop of both ends over the records of a body.
* `handleStream`: `DirectQuicServer._handle_stream`.
* `postStream`, `post`: `DirectQuicTransport`.

Connecting, its time limits, and other failures of the network are in `Peer.Transports`.
-/

namespace AI2Apps.Peer.Direct

open Streams

/-- What an end of the stream raises. -/
inductive Raised where
  | direct (e : PeerDirectError)
  | transport (e : PeerTransportError)
  /-- A value error, or what the handler raises. -/
  | other
  deriving DecidableEq

/-- The next record, and the bytes after it. -/
def nextRecord : FrameReader UInt8 Raised DirectRecord := records.mapError .direct

/-! ## Objects -/

/-- What is outside the repository: `rfc8785.dumps`, which does not write every object; the
text of floats; `int(value)`. -/
structure Codec where
  dumps : Json.Object → Option Bytes
  floats : FloatText
  int : Json → Option ℤ

/-- `json.loads(value.decode("utf-8"))`. -/
def Codec.loads (codec : Codec) (value : Bytes) : Option Json := do
  let text ← Utf8.decode (value.map UInt8.toNat)
  JsonText.loads codec.floats text

def canonicalJson (codec : Codec) (value : Json.Object) : Except Raised Bytes :=
  match codec.dumps value with
  | none => .error (.direct (frameRejected "Direct JSON is not canonicalizable."))
  | some bytes => .ok bytes

def decodeObject (codec : Codec) (value : Bytes) (expectedFields : List String) :
    Except Raised Json.Object :=
  match codec.loads value with
  | none => .error (.direct (frameRejected "Direct JSON is invalid."))
  | some (.obj parsed) => do
    if ¬ Json.keysEq parsed (expectedFields.map str) then
      throw (.direct (frameRejected "Direct JSON fields or canonical encoding are invalid."))
    if (← canonicalJson codec parsed) ≠ value then
      throw (.direct (frameRejected "Direct JSON fields or canonical encoding are invalid."))
    return parsed
  | some _ =>
    .error (.direct (frameRejected "Direct JSON fields or canonical encoding are invalid."))

def b64urlEncode (value : Bytes) : Str := Base64Url.encode (value.map UInt8.toNat)

def b64urlDecode : Json → Except Raised Bytes
  | .str text =>
    match Base64Url.decode text with
    | none => .error .other
    | some bytes => .ok (bytes.map UInt8.ofNat)
  | _ => .error .other

/-- A hello: the keys in the order in which they are written. -/
def helloObject (first : String) (name noiseMessage sessionId : Str) : Json.Object :=
  [(str first, .str name), (str "noiseMessage", .str noiseMessage), (str "protocolVersion", .int 1),
    (str "sessionId", .str sessionId)]

/-- `value[name]`, of an object that has the field. -/
def field (value : Json.Object) (name : String) : Json := (Json.lookup (str name) value).getD .null

/-- `DirectNoiseState`: the transport ciphers after the handshake. -/
structure DirectNoiseState where
  encrypt : CipherState
  decrypt : CipherState

/-! ## A body -/

/-- The numbers of the records after the hellos count up from here. -/
structure Progress where
  nonce : ℕ
  count : ℕ

/-- One turn of the loop over the records of a body: the last record ends it, another is a
chunk, and more than `limit` bytes of chunks raise `exceeded`. -/
def bodyStep (c : CipherState) (body last : DirectRecordType) (limit : ℕ) (exceeded : Raised)
    (p : Progress) (record : DirectRecord) : Except Raised (Option (Bytes × Progress)) :=
  if record.recordType = last then
    ((decryptRecord c p.nonce (record.header ++ record.payload) last).mapError .direct).map fun _ => none
  else do
    let chunk ← (decryptRecord c p.nonce (record.header ++ record.payload) body).mapError .direct
    if limit < p.count + chunk.length then throw exceeded
    return some (chunk, ⟨p.nonce + 1, p.count + chunk.length⟩)

/-- The chunks of a body, and the bytes after it or what was raised after them. -/
def readBody (c : CipherState) (body last : DirectRecordType) (limit : ℕ) (exceeded : Raised)
    (nonce : ℕ) (input : Bytes) : List Bytes × Except Raised Bytes :=
  collect nextRecord (bodyStep c body last limit exceeded) ⟨nonce, 0⟩ input

/-- The longest text of a record. -/
def sliceSize : ℕ := maxRecordPayload - 16

/-! ## The responder -/

/-- What `authorize` returns; the keys are only used by the handshake. -/
structure DirectAuthorization where
  session : PeerSession
  claims : Json.Object
  grant : Str

/-- `result.body`: one byte string, or a stream of them that may raise after some. -/
inductive ResultBody where
  | whole (body : Bytes)
  | stream (chunks : List Bytes) (raises : Bool)

/-- `PeerTransportResponse | PeerTransportStream`, as the handler returns it. -/
structure HandlerResult where
  statusCode : ℤ
  headers : List (Str × Str)
  body : ResultBody

/-- `DirectQuicServer` for one stream: what its collaborators do, and the connection id it
draws.  `accept` is `DirectResponderHandshake.accept`. -/
structure DirectQuicServer where
  authorize : Str → Json → Except Raised DirectAuthorization
  connectionId : Str
  accept : DirectAuthorization → Bytes → Str → Except Raised (DirectNoiseState × Bytes)
  handler : DirectAuthorization → Str → Bytes → Except Raised HandlerResult

def routes : List Str :=
  [str "/v1/messager/peer/v2/handshakes", str "/v1/messager/peer/v2/messages",
    str "/v1/model-share/peer/v1/inference"]

/-- The answer to a Client Hello, and the Server Hello that is written. -/
def acceptHello (codec : Codec) (s : DirectQuicServer) (hello : DirectRecord) :
    Except Raised (DirectAuthorization × DirectNoiseState × Bytes) := do
  if hello.recordType ≠ .clientHello then
    throw (.direct (frameRejected "Client Hello must be first."))
  let value ← decodeObject codec hello.payload ["grant", "noiseMessage", "protocolVersion", "sessionId"]
  match Json.pyEq (field value "protocolVersion") (.int 1), field value "grant" with
  | true, .str grant =>
    let authorization ← s.authorize grant (field value "sessionId")
    let message ← b64urlDecode (field value "noiseMessage")
    let (state, response) ← s.accept authorization message s.connectionId
    let object ← canonicalJson codec
      (helloObject "connectionId" s.connectionId (b64urlEncode response) authorization.session.sessionId)
    let written ← (plainRecord .serverHello object).mapError .direct
    return (authorization, state, written)
  | _, _ => throw (.direct ⟨"DIRECT_GRANT_REJECTED", "Direct Client Hello is invalid."⟩)

/-- The route that a Request Head names. -/
def requestPath (codec : Codec) (state : DirectNoiseState) (head : DirectRecord) : Except Raised Str := do
  let text ← (decryptRecord state.decrypt 0 (head.header ++ head.payload) .requestHead).mapError .direct
  let value ← decodeObject codec text ["contentType", "method", "path"]
  match field value "method", field value "contentType", field value "path" with
  | .str method, .str contentType, .str path =>
    if method ≠ str "POST" ∨ contentType ≠ str "application/json" ∨ path ∉ routes then
      throw (.direct (frameRejected "Direct request route is not allowed."))
    return path
  | _, _, _ => throw (.direct (frameRejected "Direct request route is not allowed."))

def requestLimitExceeded : Raised := .direct (frameRejected "Direct request exceeds the Session limit.")

/-- The request after the hellos: its path and its content. -/
def readRequest (codec : Codec) (authorization : DirectAuthorization) (state : DirectNoiseState)
    (input : Bytes) : Except Raised (Str × Bytes) := do
  let (head, input) ← nextRecord.read input
  let path ← requestPath codec state head
  let (chunks, rest) := readBody state.decrypt .requestBody .requestEnd
    authorization.session.transportPolicy.maxBytes requestLimitExceeded 1 input
  let _ ← rest
  return (path, chunks.flatten)

/-- `result.headers.get("content-type", "application/json").split(";", 1)[0]`. -/
def HandlerResult.contentType (result : HandlerResult) : Str :=
  ((result.headers.lookup (str "content-type")).getD (str "application/json")).takeWhile (· ≠ 59)

/-- The slices that become body records. -/
def HandlerResult.slices (result : HandlerResult) : List Bytes :=
  match result.body with
  | .whole body => Streams.slices sliceSize body
  | .stream chunks _ => chunks.flatMap (Streams.slices sliceSize)

/-- Whether the end of the body is reached. -/
def HandlerResult.ends (result : HandlerResult) : Bool :=
  match result.body with
  | .whole _ => true
  | .stream _ raises => !raises

def bodyRecords (t : DirectRecordType) (slices : List Bytes) : List (DirectRecordType × Bytes) :=
  slices.map fun slice => (t, slice)

/-- What is written of the response. -/
def respond (codec : Codec) (state : DirectNoiseState) (result : HandlerResult) : Bytes :=
  if result.contentType ∉ [str "application/json", str "text/event-stream"] then []
  else
    match canonicalJson codec
      [(str "contentType", .str result.contentType), (str "status", .int result.statusCode)] with
    | .error _ => []
    | .ok head =>
      (writeRecords state.encrypt 0 ((.responseHead, head) :: (bodyRecords .responseBody result.slices ++
        if result.ends then [(.responseEnd, [])] else []))).1

/-- What the responder writes, and the request that it hands to its handler. -/
structure Handled where
  written : Bytes
  request : Option (Str × Bytes)

def handleStream (codec : Codec) (s : DirectQuicServer) (input : Bytes) : Handled :=
  match nextRecord.read input with
  | .error _ => ⟨[], none⟩
  | .ok (hello, input) =>
    match acceptHello codec s hello with
    | .error _ => ⟨[], none⟩
    | .ok (authorization, state, written) =>
      match readRequest codec authorization state input with
      | .error _ => ⟨written, none⟩
      | .ok (path, content) =>
        match s.handler authorization path content with
        | .error _ => ⟨written, some (path, content)⟩
        | .ok result => ⟨written ++ respond codec state result, some (path, content)⟩

/-! ## The initiator -/

/-- `DirectQuicTransport`, with what `DirectInitiatorHandshake` makes of its session: the first
message, and the state that the Server Hello leads to. -/
structure DirectQuicTransport where
  sessionId : Str
  grant : Str
  begin : Except Raised Bytes
  finish : Bytes → Json → Except Raised DirectNoiseState

/-- `PeerTransportStream`: the chunks of the body, and what is raised after them. -/
structure Response where
  statusCode : ℤ
  contentType : Json
  body : List Bytes × Option Raised

/-- What the initiator writes, and what `post_stream` returns. -/
structure Posted where
  written : Bytes
  result : Except Raised Response

def clientHello (codec : Codec) (t : DirectQuicTransport) (grant : Str) : Except Raised Bytes := do
  let first ← t.begin
  let object ← canonicalJson codec (helloObject "grant" grant (b64urlEncode first) t.sessionId)
  (plainRecord .clientHello object).mapError .direct

/-- The state that a Server Hello leads to. -/
def finishHello (codec : Codec) (t : DirectQuicTransport) (hello : DirectRecord) :
    Except Raised DirectNoiseState := do
  if hello.recordType ≠ .serverHello then
    throw (.direct (frameRejected "Server Hello is invalid."))
  let value ← decodeObject codec hello.payload
    ["connectionId", "noiseMessage", "protocolVersion", "sessionId"]
  if ¬ Json.pyEq (field value "protocolVersion") (.int 1) ∨
      ¬ Json.pyEq (field value "sessionId") (.str t.sessionId) then
    throw (.direct ⟨"DIRECT_NOISE_REJECTED", "Server Hello binding is invalid."⟩)
  let message ← b64urlDecode (field value "noiseMessage")
  t.finish message (field value "connectionId")

/-- What is written of the request, and what is raised while it is written. -/
def writeRequest (codec : Codec) (state : DirectNoiseState) (path : Str) (payload : Bytes) :
    Bytes × Option Raised :=
  match canonicalJson codec
    [(str "contentType", .str (str "application/json")), (str "method", .str (str "POST")),
      (str "path", .str path)] with
  | .error e => ([], some e)
  | .ok head =>
    let r := writeRecords state.encrypt 0 ((.requestHead, head) ::
      (bodyRecords .requestBody (Streams.slices sliceSize payload) ++ [(.requestEnd, [])]))
    (r.1, r.2.map .direct)

/-- The fields of a Response Head. -/
def responseHead (codec : Codec) (state : DirectNoiseState) (head : DirectRecord) :
    Except Raised Json.Object := do
  let text ← (decryptRecord state.decrypt 0 (head.header ++ head.payload) .responseHead).mapError .direct
  decodeObject codec text ["contentType", "status"]

/-- `except (TimeoutError, OSError, PeerDirectError)` of `post_stream`. -/
def failed (dispatched : Bool) : Raised → Raised
  | .direct e => .transport
    { code := if dispatched then "DIRECT_RESULT_UNKNOWN" else e.code
      message := if dispatched then "Direct QUIC ended after dispatch." else "Direct QUIC is unavailable."
      retryable := !dispatched
      resultUnknown := dispatched }
  | e => e

/-- `except (OSError, PeerDirectError)` of the body. -/
def bodyFailed : Raised → Raised
  | .direct _ => .transport
    ⟨"DIRECT_RESULT_UNKNOWN", "Direct QUIC ended after request dispatch.", false, true⟩
  | e => e

def responseLimitExceeded : Raised :=
  .transport ⟨"PEER_RESPONSE_LIMIT_EXCEEDED", "Peer response exceeded the Session byte limit.", false, false⟩

/-- The generator `body()`. -/
def responseBody (state : DirectNoiseState) (maxResponseBytes : ℕ) (input : Bytes) :
    List Bytes × Option Raised :=
  match readBody state.decrypt .responseBody .responseEnd maxResponseBytes responseLimitExceeded 1 input with
  | (chunks, .ok _) => (chunks, none)
  | (chunks, .error e) => (chunks, some (bodyFailed e))

/-- The answer to the request, after the Server Hello. -/
def readResponse (codec : Codec) (state : DirectNoiseState) (maxResponseBytes : ℕ) (input : Bytes) :
    Except Raised Response := do
  let (head, input) ← (nextRecord.read input).mapError (failed true)
  let value ← (responseHead codec state head).mapError (failed true)
  match codec.int (field value "status") with
  | none => throw .other
  | some status => return ⟨status, field value "contentType", responseBody state maxResponseBytes input⟩

def postStream (codec : Codec) (t : DirectQuicTransport) (path grant : Str) (payload : Bytes)
    (maxResponseBytes : ℕ) (input : Bytes) : Posted :=
  if grant ≠ t.grant then
    ⟨[], .error (.transport
      ⟨"DIRECT_GRANT_REJECTED", "Direct Grant changed before dispatch.", false, false⟩)⟩
  else
    match clientHello codec t grant with
    | .error e => ⟨[], .error (failed false e)⟩
    | .ok hello =>
      match nextRecord.read input with
      | .error e => ⟨hello, .error (failed false e)⟩
      | .ok (record, input) =>
        match finishHello codec t record with
        | .error e => ⟨hello, .error (failed false e)⟩
        | .ok state =>
          match writeRequest codec state path payload with
          | (written, some e) => ⟨hello ++ written, .error (failed false e)⟩
          | (written, none) => ⟨hello ++ written, readResponse codec state maxResponseBytes input⟩

/-- `PeerTransportResponse`. -/
structure FullResponse where
  statusCode : ℤ
  contentType : Json
  body : Bytes

/-- `post`: the whole body, or what was raised before or within it. -/
def post (codec : Codec) (t : DirectQuicTransport) (path grant : Str) (payload : Bytes)
    (maxResponseBytes : ℕ) (input : Bytes) : Except Raised FullResponse := do
  let response ← (postStream codec t path grant payload maxResponseBytes input).result
  match response.body with
  | (_, some e) => throw e
  | (chunks, none) => return ⟨response.statusCode, response.contentType, chunks.flatten⟩

end AI2Apps.Peer.Direct
