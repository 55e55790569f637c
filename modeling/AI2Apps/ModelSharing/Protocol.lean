import AI2Apps.Lib.JsonText
import AI2Apps.Lib.Utf8
import AI2Apps.ModelSharing.Manifests

/-!
# The event decoders of the buyer

Three incremental decoders of the event stream, one for each protocol version.
All of them cut the bytes at blank lines (`frames`) and parse each event against
the phase they are in; they differ in what an event must carry.

* `SseEventDecoder`, `AudioTtsSseEventDecoder`, `MultimodalArtifactSseEventDecoder`:
  the state and the `parse` of each version.
* `feed`, `decode`: the events of one chunk, and of a whole stream to its `finish`.
-/

namespace AI2Apps.ModelSharing

structure ModelShareEvent where
  event : Str
  data : Json.Object

/-- Where a decoder is in the frozen order of events. -/
inductive Phase where
  | accepted
  | output
  | committed
  | payload
  | done
  deriving DecidableEq

/-- The events a phase allows; the output event depends on the version. -/
def Phase.allowed (outputEvent : Str) : Phase → List Str
  | .accepted => [str "job.accepted"]
  | .output => [outputEvent, str "result.committed"]
  | .committed => [str "result.payload"]
  | .payload => [str "job.completed"]
  | .done => []

/-! ## Framing -/

/-- The byte strings between blank lines, and what follows the last blank line:
the loop over `partition(b"\n\n")`. -/
def frames : List ℕ → List (List ℕ) × List ℕ
  | [] => ([], [])
  | [b] => ([], [b])
  | b :: b' :: rest =>
    if b = 10 ∧ b' = 10 then
      let r := frames rest
      ([] :: r.1, r.2)
    else
      match frames (b' :: rest) with
      | ([], r) => ([], b :: r)
      | (f :: fs, r) => ((b :: f) :: fs, r)

/-- What a decoder keeps: the bytes after the last blank line, and its own state. -/
structure Decoder (σ : Type) where
  buffer : List ℕ
  state : σ

section Feed

variable {σ : Type} (parse : σ → List ℕ → Except String (σ × ModelShareEvent))

/-- Parse the events one after the other; an empty one is skipped. -/
def parseAll : σ → List (List ℕ) → Except String (σ × List ModelShareEvent)
  | s, [] => .ok (s, [])
  | s, raw :: raws =>
    if raw = [] then parseAll s raws
    else do
      let (s, event) ← parse s raw
      let (s, events) ← parseAll s raws
      return (s, event :: events)

/-- `decoder.feed(chunk)`. -/
def feed (d : Decoder σ) (chunk : List ℕ) : Except String (Decoder σ × List ModelShareEvent) := do
  let r := frames (d.buffer ++ chunk)
  let (s, events) ← parseAll parse d.state r.1
  return (⟨r.2, s⟩, events)

/-- Feed the chunks in order: the decoder and all its events. -/
def feedAll : Decoder σ → List (List ℕ) → Except String (Decoder σ × List ModelShareEvent)
  | d, [] => .ok (d, [])
  | d, chunk :: chunks => do
    let (d, events) ← feed parse d chunk
    let (d, rest) ← feedAll d chunks
    return (d, events ++ rest)

end Feed

/-- `text.startswith(head)`, and the rest of the text. -/
def afterHead (head : String) (text : Str) : Option Str :=
  if (str head).isPrefixOf text then some (text.drop (str head).length) else none

/-- The event name and the data text of an event. -/
def eventLines (raw : List ℕ) : Except String (Str × Str) :=
  match Utf8.decode raw with
  | none => .error "SSE event is not UTF-8"
  | some text =>
    match List.splitOn 10 text with
    | [first, second] =>
      match afterHead "event: " first, afterHead "data: " second with
      | some event, some data => .ok (event, data)
      | _, _ => .error "SSE event framing is invalid"
    | _ => .error "SSE event framing is invalid"

/-- The data of an event: an object of this Contract, next in sequence. -/
def eventData (floats : FloatText) (contractId : Str) (sequence : ℕ) (text : Str) :
    Except String Json.Object :=
  match JsonText.loads floats text with
  | none => .error "SSE event data is invalid JSON"
  | some value =>
    match value.obj? with
    | none => .error "SSE event identity or sequence is invalid"
    | some data =>
      if Json.memberEq data (str "contractId") (.str contractId) &&
          Json.memberEq data (str "sequence") (.int sequence) then .ok data
      else .error "SSE event identity or sequence is invalid"

/-- `error` unless the check passes. -/
def ensure (check : Bool) (message : String) : Except String Unit :=
  if check then .ok () else .error message

/-- `value`, or the error. -/
def orError {α : Type} (value : Option α) (message : String) : Except String α :=
  match value with
  | some a => .ok a
  | none => .error message

/-- `data.get(key)`. -/
def field (data : Json.Object) (key : String) : Json := (Json.lookup (str key) data).getD .null

/-- A digest as text. -/
def digestOf (data : Json.Object) : Except String Str :=
  orError ((field data "resultDigest").str?.filter isSha256Hex) "Result commitment is invalid"

/-- `manifest["parts"][0]` and `manifest["artifacts"][0]`; the schema has checked
that there is one. -/
def firstItem (v : Json) : Json.Object :=
  (((v.arr?).bind List.head?).bind Json.obj?).getD []

/-- What every decoder is given. -/
structure Binding where
  codec : ManifestCodec
  floats : FloatText
  contractId : Str
  requestDigest : Str

/-! ## Version 1: text -/

namespace SseEventDecoder

structure State (codec : ManifestCodec) where
  nextSequence : ℕ
  phase : Phase
  resultDigest : Option Str
  resultManifest : Option (ResultManifest codec computeResult)

def init (codec : ManifestCodec) : Decoder (State codec) := ⟨[], ⟨0, .accepted, none, none⟩⟩

variable (b : Binding)

/-- The effect of an event on the state, besides the sequence number. -/
def accept (s : State b.codec) (event : Str) (data : Json.Object) :
    Except String (State b.codec) :=
  if event = str "job.accepted" then do
    ensure (Json.memberEq data (str "protocolVersion") (.int 1) &&
      Json.memberEq data (str "requestDigest") (.str b.requestDigest))
      "Job acceptance binding is invalid"
    return { s with phase := .output }
  else if event = str "output.delta" then do
    ensure (field data "text").str?.isSome "Output delta is invalid"
    return s
  else if event = str "result.committed" then do
    let digest ← digestOf data
    ensure (isInteger 0 (field data "inputTokens") && isInteger 0 (field data "outputTokens"))
      "Result usage is invalid"
    return { s with phase := .committed, resultDigest := some digest }
  else if event = str "result.payload" then do
    let manifest ← orError (ResultManifest.parse b.codec computeResult (field data "resultManifest"))
      "result manifest is invalid"
    ensure (Json.pyEq (manifest.member "contractId") (.str b.contractId) &&
      Json.pyEq (manifest.member "requestDigest") (.str b.requestDigest) &&
      some manifest.digest == s.resultDigest)
      "Result payload does not match its commitment"
    return { s with phase := .payload, resultManifest := some manifest }
  else return { s with phase := .done }

def parse (s : State b.codec) (raw : List ℕ) :
    Except String (State b.codec × ModelShareEvent) := do
  let (event, text) ← eventLines raw
  ensure (event ∈ s.phase.allowed (str "output.delta")) "SSE event order is invalid"
  let data ← eventData b.floats b.contractId s.nextSequence text
  let s ← accept b s event data
  return ({ s with nextSequence := s.nextSequence + 1 }, ⟨event, data⟩)

def finish (d : Decoder (State b.codec)) : Except String Unit := do
  ensure d.buffer.isEmpty "SSE stream ended with a partial event"
  ensure (d.state.phase = .done && d.state.resultManifest.isSome)
    "SSE stream ended before a verified result"

end SseEventDecoder

/-! ## Chunks of bytes -/

/-- The bytes of a chunk event, next in a content of which `content` has arrived. -/
def chunkBytes (noun artifactId : String) (maximum : ℕ) (finalChunk : Bool) (content : List ℕ)
    (data : Json.Object) : Except String (List ℕ) := do
  ensure (!finalChunk && Json.memberEq data (str "artifactId") (.str (str artifactId)) &&
    Json.memberEq data (str "offset") (.int content.length)) s!"{noun} chunk identity or offset is invalid"
  let decoded ← orError ((field data "bytes").str?.bind Base64Url.decode)
    s!"{noun} chunk encoding is invalid"
  ensure (decoded ≠ [] && decoded.length ≤ 262144 && content.length + decoded.length ≤ maximum)
    s!"{noun} chunk exceeds the protocol limit"
  return decoded

/-- The final marker of a chunk event. -/
def finalMarker (noun : String) (data : Json.Object) : Except String Bool :=
  match field data "final" with
  | .bool final => .ok final
  | _ => .error s!"{noun} final marker is invalid"

/-! ## Version 2: speech -/

namespace AudioTtsSseEventDecoder

structure State (codec : ManifestCodec) where
  audio : List ℕ
  nextSequence : ℕ
  phase : Phase
  finalChunk : Bool
  resultDigest : Option Str
  committedUsage : Option (ℤ × ℤ)
  resultManifest : Option (ResultManifest codec audioTtsResult)

def init (codec : ManifestCodec) : Decoder (State codec) :=
  ⟨[], ⟨[], 0, .accepted, false, none, none, none⟩⟩

variable (b : Binding)

/-- The manifest is the committed one and describes the audio that arrived. -/
def manifestMatches (s : State b.codec) (manifest : ResultManifest b.codec audioTtsResult) : Bool :=
  let part := firstItem (manifest.member "parts")
  let usage := (manifest.member "usage").obj?.getD []
  Json.pyEq (manifest.member "contractId") (.str b.contractId) &&
    Json.pyEq (manifest.member "requestDigest") (.str b.requestDigest) &&
    some manifest.digest == s.resultDigest &&
    s.committedUsage.any (fun u => Json.pyEq (field usage "inputUnits") (.int u.1) &&
      Json.pyEq (field usage "outputUnits") (.int u.2)) &&
    Json.pyEq (field part "sizeBytes") (.int s.audio.length) &&
    Json.pyEq (field part "contentDigest") (.str (b.codec.sha256 s.audio))

def accept (s : State b.codec) (event : Str) (data : Json.Object) :
    Except String (State b.codec) :=
  if event = str "job.accepted" then do
    ensure (Json.memberEq data (str "protocolVersion") (.int 2) &&
      Json.memberEq data (str "requestDigest") (.str b.requestDigest))
      "Job acceptance binding is invalid"
    return { s with phase := .output }
  else if event = str "output.audio.chunk" then do
    let decoded ← chunkBytes "Audio" "audio-0" 67108864 s.finalChunk s.audio data
    let final ← finalMarker "Audio chunk" data
    return { s with audio := s.audio ++ decoded, finalChunk := final }
  else if event = str "result.committed" then do
    ensure s.finalChunk "Audio result was committed before its final chunk"
    let digest ← digestOf data
    ensure (Json.memberEq data (str "inputUnit") (.str (str "unicode_scalar")) &&
      Json.memberEq data (str "outputUnit") (.str (str "audio_millisecond")))
      "Audio result usage units are invalid"
    match (field data "inputUnits").int?, (field data "outputUnits").int? with
    | some inputUnits, some outputUnits => do
      ensure (1 ≤ inputUnits && 1 ≤ outputUnits) "Audio result usage is invalid"
      return { s with
        phase := .committed
        resultDigest := some digest
        committedUsage := some (inputUnits, outputUnits) }
    | _, _ => .error "Audio result usage is invalid"
  else if event = str "result.payload" then do
    let manifest ← orError (ResultManifest.parse b.codec audioTtsResult (field data "resultManifest"))
      "result manifest is invalid"
    ensure (manifestMatches b s manifest) "Audio Result does not match its commitment or bytes"
    return { s with phase := .payload, resultManifest := some manifest }
  else return { s with phase := .done }

def parse (s : State b.codec) (raw : List ℕ) :
    Except String (State b.codec × ModelShareEvent) := do
  let (event, text) ← eventLines raw
  ensure (event ∈ s.phase.allowed (str "output.audio.chunk")) "Audio SSE event order is invalid"
  let data ← eventData b.floats b.contractId s.nextSequence text
  let s ← accept b s event data
  return ({ s with nextSequence := s.nextSequence + 1 }, ⟨event, data⟩)

def finish (d : Decoder (State b.codec)) : Except String Unit :=
  ensure (d.buffer.isEmpty && d.state.phase = .done && d.state.resultManifest.isSome)
    "Audio stream ended before a verified result"

end AudioTtsSseEventDecoder

/-! ## Version 3: multimodal artifacts -/

namespace MultimodalArtifactSseEventDecoder

structure State (codec : ManifestCodec) where
  artifact : List ℕ
  nextSequence : ℕ
  phase : Phase
  finalChunk : Bool
  resultDigest : Option Str
  actualUsage : Option Json.Object
  resultManifest : Option (ResultManifest codec multimodalResult)

def init (codec : ManifestCodec) : Decoder (State codec) :=
  ⟨[], ⟨[], 0, .accepted, false, none, none, none⟩⟩

variable (b : Binding) (calculatorType : Str) (maximumBytes : ℕ)

/-- The manifest is the committed one, and its first artifact is what arrived. -/
def manifestMatches (s : State b.codec) (manifest : ResultManifest b.codec multimodalResult) :
    Bool :=
  let artifact := firstItem (manifest.member "artifacts")
  Json.pyEq (manifest.member "contractId") (.str b.contractId) &&
    Json.pyEq (manifest.member "calculatorType") (.str calculatorType) &&
    s.actualUsage.any (fun u => Json.pyEq (manifest.member "actualUsage") (.obj u)) &&
    some manifest.digest == s.resultDigest &&
    Json.pyEq (field artifact "byteSize") (.str (JsonText.natText s.artifact.length)) &&
    Json.pyEq (field artifact "sha256") (.str (b.codec.sha256 s.artifact))

def accept (s : State b.codec) (event : Str) (data : Json.Object) :
    Except String (State b.codec) :=
  if event = str "job.accepted" then do
    ensure (Json.memberEq data (str "protocolVersion") (.int 3) &&
      Json.memberEq data (str "requestDigest") (.str b.requestDigest) &&
      Json.memberEq data (str "calculatorType") (.str calculatorType))
      "Multimodal job binding is invalid"
    return { s with phase := .output }
  else if event = str "output.artifact.chunk" then do
    let decoded ← chunkBytes "Artifact" "artifact-0" maximumBytes s.finalChunk s.artifact data
    let final ← finalMarker "Artifact" data
    return { s with artifact := s.artifact ++ decoded, finalChunk := final }
  else if event = str "result.committed" then do
    ensure s.finalChunk "Result was committed before the final artifact chunk"
    let digest ← digestOf data
    let usage ← orError (validateActualUsage calculatorType (field data "actualUsage"))
      "actualUsage is invalid"
    return { s with
      phase := .committed
      resultDigest := some digest
      actualUsage := some usage }
  else if event = str "result.payload" then do
    let manifest ← orError
      (ResultManifest.parse b.codec multimodalResult (field data "resultManifest"))
      "result manifest is invalid"
    ensure (manifestMatches b calculatorType s manifest)
      "Result manifest does not match its commitment or artifact"
    return { s with phase := .payload, resultManifest := some manifest }
  else return { s with phase := .done }

/-- This decoder reads the data of the second line before it checks the framing. -/
def parse (s : State b.codec) (raw : List ℕ) :
    Except String (State b.codec × ModelShareEvent) := do
  let text ← orError (Utf8.decode raw) "Multimodal SSE event is invalid"
  match List.splitOn 10 text with
  | first :: second :: more => do
    let value ← orError (JsonText.loads b.floats (second.drop 6)) "Multimodal SSE event is invalid"
    ensure (more.isEmpty && (str "event: ").isPrefixOf first && (str "data: ").isPrefixOf second)
      "Multimodal SSE framing is invalid"
    let event := first.drop 7
    match value.obj? with
    | none => .error "Multimodal SSE order or identity is invalid"
    | some data => do
      ensure (event ∈ s.phase.allowed (str "output.artifact.chunk") &&
        Json.memberEq data (str "contractId") (.str b.contractId) &&
        Json.memberEq data (str "sequence") (.int s.nextSequence))
        "Multimodal SSE order or identity is invalid"
      let s ← accept b calculatorType maximumBytes s event data
      return ({ s with nextSequence := s.nextSequence + 1 }, ⟨event, data⟩)
  | _ => .error "Multimodal SSE event is invalid"

def finish (d : Decoder (State b.codec)) : Except String Unit :=
  ensure (d.buffer.isEmpty && d.state.phase = .done && d.state.resultManifest.isSome)
    "Multimodal stream ended before a verified result"

end MultimodalArtifactSseEventDecoder

end AI2Apps.ModelSharing
