import AI2Apps.Lib.Faults
import AI2Apps.ModelSharing.Jobs
import AI2Apps.ModelSharing.Manifests
import AI2Apps.Peer.Repository

/-!
# The provider

`inference` authorizes a request, records the job and dispatches it to the
Worker; the stream it returns sends the output and commits to the result before
it releases it.  The three streams (text, speech, multimodal) are the three
protocol versions.

Every await may raise, and at every yield the consumer may abandon the stream.
The state is the ledger, the replay table, and what has been yielded; the
stream's own `terminal` flag is part of it because it outlives an exception.
-/

namespace AI2Apps.ModelSharing

open Faults Clock Peer

/-- An exception: one the provider raises, or anything else. -/
inductive Exc where
  | error (code message : String) (statusCode : ℕ)
  | raised
  deriving DecidableEq

namespace Provider

structure State where
  jobs : Jobs
  replay : ReplayTable
  emitted : List (List ℕ)
  terminal : Bool

abbrev Run (α : Type) := EStateM Exc State α

/-! ## The request and its surroundings -/

inductive RequestKind where
  | text
  | audioTts
  | multimodal
  deriving DecidableEq

/-- A parsed `InferenceRequest`. -/
structure InferenceRequest where
  sessionId : Str
  contractId : Str
  requestDigest : Str
  kind : RequestKind
  manifest : Json.Object
  requestPayload : Option Json.Object

/-- A Peer Session as the provider has it recorded. -/
structure SessionRecord where
  ownerUserId : Str
  session : PeerSession
  status : Str
  expiresAt : DateTime

inductive Delta where
  | text (s : Str)
  | nonText
  | fails

structure InferenceUsage where
  inputTokens : ℤ
  outputTokens : ℤ
  finishReason : Str

/-- What the Worker returned, as the streams read it. -/
structure Execution where
  deltas : List Delta
  usage : Option InferenceUsage
  audio : Option (List ℕ)
  inputUnits : Json
  outputUnits : Json
  artifact : Option (List ℕ)
  contentType : Option Str
  actualUsage : Json

/-- What the clients, the signer, the Worker and the consumer do.  An await that
returns nothing the code reads is only its exception; one that returns a value is
`none` when it raises. -/
structure Env where
  codec : ManifestCodec
  floats : FloatText
  jwtCodec : JwtCodec
  jtiDigest : JtiDigest
  /-- `int(value)`; `none` when it raises. -/
  toInt : Json → Option ℤ
  session : Option SessionRecord
  now : DateTime
  jwks : Option Json.Object
  contract : Option Json.Object
  signerFactory : Option Exc
  signAcceptance : Option Exc
  inputAcceptance : Option Json.Object
  inferenceHandler : Option Exc
  execution : Execution
  nonce : List ℕ
  signResult : Option Exc
  resultCommitment : Option Json.Object
  /-- The consumer drops the stream without starting it. -/
  unstarted : Bool
  /-- What the consumer makes the stream raise at a yield. -/
  consumer : ℕ → Option Exc

/-- The value of an await, or its exception. -/
def awaitValue {α : Type} (o : Option α) : Run α := orThrow .raised o

def fail {α : Type} (code message : String) (statusCode : ℕ) : Run α :=
  throw (.error code message statusCode)

/-- `if condition: raise`. -/
def failIf (condition : Prop) [Decidable condition] (code message : String) (statusCode : ℕ) :
    Run Unit := only condition (fail code message statusCode)

/-- `self.jobs.set_status`. -/
def setStatus (contractId : Str) (u : StatusUpdate) : Run Unit := do
  let s ← get
  let jobs ← awaitValue (s.jobs.setStatus contractId u)
  modify fun s => { s with jobs }

/-- `_sse(event, data)`: the event as it is sent. -/
def sse (floats : FloatText) (event : String) (data : Json.Object) : Option (List ℕ) :=
  Utf8.encode (str "event: " ++ str event ++ str "\ndata: " ++ JsonText.dumps floats (.obj data) ++
    str "\n\n")

/-- `yield _sse(event, data)`. -/
def yieldSse (env : Env) (event : String) (data : Json.Object) : Run Unit := do
  let raw ← awaitValue (sse env.floats event data)
  modify fun s => { s with emitted := s.emitted ++ [raw] }
  let s ← get
  fault (env.consumer (s.emitted.length - 1))

/-- `data.get(key, default)`. -/
def getOr (o : Json.Object) (key : String) (default : Json) : Json :=
  (Json.lookup (str key) o).getD default

/-! ## Authorization -/

/-- What the request manifest says about the model. -/
def modelOf (request : InferenceRequest) : Json.Object :=
  match request.kind with
  | .multimodal =>
    [(str "id", getOr request.manifest "modelId" .null),
      (str "revision", getOr request.manifest "modelRevision" .null),
      (str "runtime", getOr request.manifest "runtime" .null)]
  | _ => ((getOr request.manifest "model" .null).obj?).getD []

/-- The calculator of a multimodal request. -/
def calculatorOf (request : InferenceRequest) : Option Str :=
  match request.kind with
  | .multimodal => (getOr request.manifest "calculatorType" .null).str?
  | _ => none

/-- The modality and the units a request of this kind is priced in. -/
def expectedUnits (request : InferenceRequest) : Option (Str × Str × Str) :=
  match request.kind with
  | .multimodal =>
    (calculatorOf request).bind fun c => (calculatorContracts.find? fun p => p.1 = c).map Prod.snd
  | .audioTts => some (str "audio_tts", str "unicode_scalar", str "audio_millisecond")
  | .text => some (str "text", str "token", str "token")

def contractMatches (principal : Str) (record : SessionRecord) (request : InferenceRequest)
    (contract : Json.Object) (units : Str × Str × Str) : Bool :=
  let model := modelOf request
  Json.pyEq (getOr contract "modality" (.str (str "text"))) (.str units.1) &&
    Json.pyEq (getOr contract "inputUnit" (.str (str "token"))) (.str units.2.1) &&
    Json.pyEq (getOr contract "outputUnit" (.str (str "token"))) (.str units.2.2) &&
    (request.kind ≠ .multimodal || Json.pyEq (getOr contract "calculatorType" .null)
      (getOr request.manifest "calculatorType" .null)) &&
    [("id", Json.str request.contractId), ("providerUserId", .str principal),
      ("buyerUserId", .str record.session.peerEndpoint.userId),
      ("requestDigest", .str request.requestDigest),
      ("modelId", getOr model "id" .null), ("modelRevision", getOr model "revision" .null),
      ("runtime", getOr model "runtime" .null), ("assetCode", .str (str "PROMO_POINTS")),
      ("status", .str (str "held"))].all
        fun expected => Json.memberEq contract (str expected.1) expected.2

/-- The pricing input a speech payload is bound to. -/
def boundInput (payload : Json.Object) : Json.Object :=
  [(str "unicodeScalarCount",
      match Json.lookup (str "text") payload with
      | some (.str s) => .int s.length
      | _ => .int (-1)),
    (str "speedBps", getOr payload "speedBps" .null),
    (str "customSampleUsed", getOr payload "customSampleUsed" .null),
    (str "quality", getOr payload "quality" .null)]

/-- `isinstance(value, int)`, which a boolean is too. -/
def isIntOrBool : Json → Bool
  | .int _ | .bool _ => true
  | _ => false

/-- The frozen pricing bounds of a multimodal Contract. -/
def checkPricing (request : InferenceRequest) (contract : Json.Object) : Run Unit := do
  match getOr contract "pricingInput" .null, getOr contract "boundedUsage" .null with
  | .obj pricingInput, .obj boundedUsage =>
    failIf (calculatorOf request = some (str "tts_v1") ∧
        (¬ Json.pyEq (.obj pricingInput) (.obj (boundInput (request.requestPayload.getD []))) ∨
          ¬ isIntOrBool (getOr boundedUsage "maximumDurationMs" .null)))
      "COMPUTE_PRICING_INVALID" "TTS payload does not match the frozen pricing input." 422
  | _, _ =>
    fail "COMPUTE_CONTRACT_MISMATCH" "Compute Contract omitted its frozen pricing bounds." 403

/-- The grant of the bearer, verified and consumed. -/
def admitGrant (env : Env) (bearerGrant : Str) (record : SessionRecord) : Run Unit := do
  let session := record.session
  let jwks ← awaitValue env.jwks
  match verifyPeerGrant env.jwtCodec bearerGrant jwks session session.peerEndpoint.userId
      session.peerEndpoint.deviceId env.now.epochSeconds with
  | .error message => fail "PEER_GRANT_INVALID" message 401
  | .ok grant => do
    let expiresAt ← awaitValue (fromtimestamp (intClaim grant.claims "exp"))
    let s ← get
    let result := consumeGrantJti env.jtiDigest s.replay env.now (strClaim grant.claims "jti")
      session.sessionId expiresAt
    modify fun s => { s with replay := result.2 }
    failIf (¬ result.1)
      "PEER_GRANT_REPLAYED" "Peer Grant was already consumed." 409

/-- Everything before the ledger: the Contract that authorizes the request. -/
def authorize (env : Env) (principal bearerGrant : Str) (request : InferenceRequest) :
    Run Json.Object := do
  match env.session with
  | none => fail "PEER_SESSION_NOT_FOUND" "Peer Session was not found." 404
  | some record => do
    failIf (record.ownerUserId ≠ principal)
      "PEER_SESSION_NOT_FOUND" "Peer Session was not found." 404
    failIf (record.session.protocol ≠ .modelShareV1 ∨ record.status ≠ str "active" ∨
        record.session.purposeId ≠ request.contractId)
      "PEER_SESSION_INVALID" "Peer Session cannot authorize this job." 403
    failIf (record.expiresAt.micros ≤ env.now.micros)
      "PEER_SESSION_EXPIRED" "Peer Session expired." 401
    admitGrant env bearerGrant record
    let contract ← awaitValue env.contract
    let units ← awaitValue (expectedUnits request)
    failIf (¬ contractMatches principal record request contract units)
      "COMPUTE_CONTRACT_MISMATCH" "Compute Contract does not authorize this input." 403
    only (request.kind = .multimodal) (checkPricing request contract)
    return contract

/-- `self.jobs.begin`, and the refusal of a Contract that was already dispatched. -/
def beginJob (principal : Str) (request : InferenceRequest) (contract : Json.Object) :
    Run Unit := do
  let s ← get
  let (created, jobs) ← awaitValue (s.jobs.begin request.contractId
    { sessionId := request.sessionId
      ownerUserId := principal
      role := str "provider"
      requestDigest := request.requestDigest
      calculatorType := calculatorOf request
      maximumChargeMinor :=
        if request.kind = .multimodal then getOr contract "maximumChargeMinor" .null else .null })
  modify fun s => { s with jobs }
  failIf (¬ created) "COMPUTE_RESULT_UNKNOWN" "This Contract was already dispatched." 409

/-- From the recorded job to the Worker's execution. -/
def dispatch (env : Env) (request : InferenceRequest) : Run Unit := do
  fault env.signerFactory
  fault env.signAcceptance
  let running ← awaitValue env.inputAcceptance
  failIf (¬ Json.memberEq running (str "status") (.str (str "running")))
    "COMPUTE_INPUT_NOT_ACCEPTED" "Cloud did not authorize Worker execution." 409
  setStatus request.contractId { status := .running }
  fault env.inferenceHandler

/-! ## The streams -/

/-- The offsets of the slices of a byte string. -/
def sliceOffsets (size length : ℕ) : List ℕ :=
  (List.range ((length + size - 1) / size)).map (· * size)

def chunkSize : ℕ := 262144

/-- The chunk events of a byte string; returns the next sequence number. -/
def streamChunks (env : Env) (event artifactId : String) (contractId : Str) (content : List ℕ) :
    ℕ → List ℕ → Run ℕ
  | sequence, [] => pure sequence
  | sequence, offset :: offsets => do
    let chunk := (content.drop offset).take chunkSize
    yieldSse env event
      [(str "contractId", .str contractId), (str "sequence", .int sequence),
        (str "artifactId", .str (str artifactId)), (str "offset", .int offset),
        (str "bytes", .str (Base64Url.encode chunk)),
        (str "final", .bool (offset + chunk.length == content.length))]
    streamChunks env event artifactId contractId content (sequence + 1) offsets

/-- The deltas of a text execution; returns the next sequence number and the text. -/
def streamDeltas (env : Env) (contractId : Str) (limit : ℕ) :
    ℕ → Str → ℕ → List Delta → Run (ℕ × Str)
  | sequence, text, _, [] => pure (sequence, text)
  | _, _, _, .fails :: _ => throw .raised
  | _, _, _, .nonText :: _ =>
    fail "MODEL_OUTPUT_INVALID" "Worker returned a non-text delta." 502
  | sequence, text, textBytes, .text delta :: deltas => do
    let encoded ← awaitValue (Utf8.encode delta)
    failIf (limit < textBytes + encoded.length)
      "MODEL_OUTPUT_LIMIT_EXCEEDED" "Worker output exceeded the Contract limit." 413
    yieldSse env "output.delta"
      [(str "contractId", .str contractId), (str "sequence", .int sequence),
        (str "text", .str delta)]
    streamDeltas env contractId limit (sequence + 1) (text ++ delta) (textBytes + encoded.length)
      deltas

/-- The events after the commitment. -/
def release (env : Env) (contractId : Str) (sequence : ℕ) (committed manifest : Json.Object) :
    Run Unit := do
  yieldSse env "result.committed" committed
  yieldSse env "result.payload"
    [(str "contractId", .str contractId), (str "sequence", .int (sequence + 1)),
      (str "resultManifest", .obj manifest)]
  setStatus contractId { status := .completed }
  modify fun s => { s with terminal := true }
  yieldSse env "job.completed"
    [(str "contractId", .str contractId), (str "sequence", .int (sequence + 2))]

/-- The Cloud's answer to a commitment. -/
def commit (env : Env) (message : String) : Run Json.Object := do
  fault env.signResult
  let committed ← awaitValue env.resultCommitment
  failIf (¬ Json.memberEq committed (str "status") (.str (str "result_committed")))
    "COMPUTE_RESULT_NOT_COMMITTED" message 409
  return committed

/-- `except BaseException` of the streams. -/
def guarded (contractId : Str) (body : Run Unit) : Run Unit :=
  tryCatch body fun e => do
    let s ← get
    only (s.terminal = false) (setStatus contractId { status := .resultUnknown })
    throw e

def accepted (version : ℤ) (request : InferenceRequest) : Json.Object :=
  [(str "protocolVersion", .int version), (str "contractId", .str request.contractId),
    (str "requestDigest", .str request.requestDigest)]

def textBody (env : Env) (maxBytes : ℕ) (request : InferenceRequest) : Run Unit := do
  let (sequence, text) ← streamDeltas env request.contractId (min maxBytes 4000000) 1 [] 0
    env.execution.deltas
  let usage ← awaitValue env.execution.usage
  failIf (usage.inputTokens < 0 ∨ usage.outputTokens < 0)
    "MODEL_USAGE_INVALID" "Worker usage is invalid." 502
  let result ← awaitValue (ComputeResultManifest.create env.codec request.contractId
    request.requestDigest text usage.finishReason env.nonce)
  let _ ← commit env "Cloud did not accept the Result commitment."
  setStatus request.contractId
    { status := .resultCommitted, resultDigest := some result.digest,
      inputTokens := some usage.inputTokens, outputTokens := some usage.outputTokens }
  release env request.contractId sequence
    [(str "contractId", .str request.contractId), (str "sequence", .int sequence),
      (str "resultDigest", .str result.digest), (str "inputTokens", .int usage.inputTokens),
      (str "outputTokens", .int usage.outputTokens)]
    result.value

def stream (env : Env) (maxBytes : ℕ) (request : InferenceRequest) : Run Unit := do
  yieldSse env "job.accepted" (accepted 1 request ++ [(str "sequence", .int 0)])
  guarded request.contractId (textBody env maxBytes request)

def audioBody (env : Env) (maxBytes : ℕ) (request : InferenceRequest) : Run Unit := do
  match env.execution.audio with
  | none | some [] => fail "MODEL_AUDIO_INVALID" "Worker returned no WAV artifact." 502
  | some audio => do
    failIf (min maxBytes 67108864 < audio.length)
      "MODEL_OUTPUT_LIMIT_EXCEEDED" "WAV artifact exceeded the Contract limit." 413
    match env.execution.inputUnits, env.execution.outputUnits with
    | .int inputUnits, .int outputUnits => do
      failIf (inputUnits < 1 ∨ outputUnits < 1)
        "MODEL_USAGE_INVALID" "TTS metered usage is invalid." 502
      let sequence ← streamChunks env "output.audio.chunk" "audio-0" request.contractId audio 1
        (sliceOffsets chunkSize audio.length)
      let result ← awaitValue (AudioTtsResultManifest.create env.codec request.contractId
        request.requestDigest audio.length (env.codec.sha256 audio) inputUnits outputUnits env.nonce)
      let _ ← commit env "Cloud did not accept the TTS Result commitment."
      setStatus request.contractId
        { status := .resultCommitted, resultDigest := some result.digest,
          inputTokens := some inputUnits, outputTokens := some outputUnits }
      release env request.contractId sequence
        [(str "contractId", .str request.contractId), (str "sequence", .int sequence),
          (str "resultDigest", .str result.digest), (str "inputUnit", .str (str "unicode_scalar")),
          (str "inputUnits", .int inputUnits), (str "outputUnit", .str (str "audio_millisecond")),
          (str "outputUnits", .int outputUnits)]
        result.value
    | _, _ => fail "MODEL_USAGE_INVALID" "TTS metered usage is invalid." 502

def audioStream (env : Env) (maxBytes : ℕ) (request : InferenceRequest) : Run Unit := do
  yieldSse env "job.accepted" (accepted 2 request ++ [(str "sequence", .int 0)])
  guarded request.contractId (audioBody env maxBytes request)

/-- The duration of a speech artifact stays within the frozen bound; `none` when
the comparison raises. -/
def durationWithin (actualUsage boundedUsage : Json.Object) : Option Bool :=
  match getOr actualUsage "outputDurationMs" .null, getOr boundedUsage "maximumDurationMs" .null with
  | .int actual, .int maximum => some (actual ≤ maximum)
  | .int actual, .bool maximum => some (actual ≤ maximum.toNat)
  | _, _ => none

/-- The bound of a speech artifact's duration. -/
def checkDuration (calculatorType : Str) (actualUsage boundedUsage : Json.Object) : Run Unit :=
  only (calculatorType = str "tts_v1") do
    let within ← awaitValue (durationWithin actualUsage boundedUsage)
    failIf (¬ within)
      "COMPUTE_PRICING_INVALID" "Final TTS duration exceeds the frozen quote bound." 422

def multimodalBody (env : Env) (maxBytes : ℕ) (request : InferenceRequest) (calculatorType : Str)
    (boundedUsage : Json.Object) : Run Unit := do
  let actualUsage ← awaitValue (validateActualUsage calculatorType env.execution.actualUsage)
  checkDuration calculatorType actualUsage boundedUsage
  match env.execution.artifact with
  | none | some [] => fail "MODEL_ARTIFACT_INVALID" "Worker returned no final artifact." 502
  | some artifact => do
    match env.execution.contentType with
    | none | some [] =>
      fail "MODEL_OUTPUT_LIMIT_EXCEEDED" "Final artifact exceeds the Contract transport limit." 413
    | some contentType => do
      failIf (maxBytes < artifact.length)
        "MODEL_OUTPUT_LIMIT_EXCEEDED" "Final artifact exceeds the Contract transport limit." 413
      let sequence ← streamChunks env "output.artifact.chunk" "artifact-0" request.contractId artifact
        1 (sliceOffsets chunkSize artifact.length)
      let result ← awaitValue (MultimodalResultManifest.create env.codec request.contractId
        calculatorType actualUsage
        [[(str "sha256", .str (env.codec.sha256 artifact)), (str "contentType", .str contentType),
          (str "byteSize", .str (JsonText.natText artifact.length))]])
      let committed ← commit env "Cloud did not accept the multimodal Result commitment."
      let released ← awaitValue (releasedMinor env.toInt
        (getOr committed "maximumChargeMinor" .null) (getOr committed "chargedMinor" .null))
      setStatus request.contractId
        { status := .resultCommitted, resultDigest := some result.digest,
          actualUsage := some actualUsage, chargedMinor := getOr committed "chargedMinor" .null,
          releasedMinor := released }
      release env request.contractId sequence
        [(str "contractId", .str request.contractId), (str "sequence", .int sequence),
          (str "resultDigest", .str result.digest), (str "actualUsage", .obj actualUsage)]
        result.value

def multimodalStream (env : Env) (maxBytes : ℕ) (request : InferenceRequest) (calculatorType : Str)
    (boundedUsage : Json.Object) : Run Unit := do
  yieldSse env "job.accepted"
    (accepted 3 request ++ [(str "calculatorType", .str calculatorType), (str "sequence", .int 0)])
  guarded request.contractId (multimodalBody env maxBytes request calculatorType boundedUsage)

/-- The stream a request of each kind gets. -/
def streamFor (env : Env) (request : InferenceRequest) (contract : Json.Object) : Run Unit :=
  let maxBytes := (env.session.map fun r => r.session.transportPolicy.maxBytes).getD 0
  match request.kind with
  | .text => stream env maxBytes request
  | .audioTts => audioStream env maxBytes request
  | .multimodal =>
    multimodalStream env maxBytes request ((calculatorOf request).getD [])
      (((getOr contract "boundedUsage" .null).obj?).getD [])

/-- The part of `inference()` up to the recorded job. -/
def admission (env : Env) (principal bearerGrant : Str) (request : InferenceRequest) :
    Run Json.Object := do
  let contract ← authorize env principal bearerGrant request
  beginJob principal request contract
  return contract

/-- `inference()`: returns the stream's Contract. -/
def inference (env : Env) (principal bearerGrant : Str) (request : InferenceRequest) :
    Run Json.Object := do
  let contract ← admission env principal bearerGrant request
  dispatch env request
  return contract

/-- `inference()` and the stream it returned, as far as the consumer drives it. -/
def serve (env : Env) (principal bearerGrant : Str) (request : InferenceRequest) : Run Unit := do
  let contract ← inference env principal bearerGrant request
  only (env.unstarted = false) (streamFor env request contract)

end Provider

end AI2Apps.ModelSharing
