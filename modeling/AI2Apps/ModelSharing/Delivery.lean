import AI2Apps.ModelSharing.Acceptance
import AI2Apps.Peer.SingleUse
import AI2Apps.Peer.Transports

/-!
# What the provider sends, the buyer receives

The decoders accept every completed stream.  What can go wrong is the transport:
the provider bounds the output of the Worker by the byte limit of the Session, and
the transport bounds the framed events by the same limit.

* `Route.passes_iff`: a transport hands a body over when it is within the limit.
* `received_of_completes`: the decoders accept a completed stream in every chunking.
* `delivered_iff`: a completed stream is delivered exactly when its framed events
  are within the limit.
-/

namespace AI2Apps.ModelSharing

open Faults Provider

/-! ## The transports -/

/-- The transport a response body is read from. -/
inductive Route where
  | directQuic
  | relayHttps

/-- The transport hands the whole body over. -/
def Route.Passes (maxResponseBytes : ℕ) (chunks : List (List ℕ)) : Route → Prop
  | .directQuic => ∀ s, wp (Peer.DirectQuic.readBody maxResponseBytes 0
      (chunks.map .chunk ++ [.finish])) (fun _ _ => True) (fun _ _ => False) s
  | .relayHttps => ∀ s, wp (Peer.Relay.readBounded maxResponseBytes 0
      (chunks.map .chunk ++ [.finish])) (fun _ _ => True) (fun _ _ => False) s

theorem directQuic_readBody_iff {maxResponseBytes count : ℕ} (hcount : count ≤ maxResponseBytes)
    (chunks : List (List ℕ)) (s : Peer.DirectQuic.State) :
    wp (Peer.DirectQuic.readBody maxResponseBytes count (chunks.map .chunk ++ [.finish]))
      (fun _ _ => True) (fun _ _ => False) s ↔
      count + chunks.flatten.length ≤ maxResponseBytes := by
  induction chunks generalizing count with
  | nil => exact iff_of_true trivial hcount
  | cons chunk chunks ih =>
    rw [List.map_cons, List.cons_append, Peer.DirectQuic.readBody, List.flatten_cons,
      List.length_append]
    by_cases hlimit : maxResponseBytes < count + chunk.length
    · simp only [hlimit, if_true]
      exact iff_of_false id (by omega)
    · simp only [hlimit, if_false]
      rw [← Nat.add_assoc]
      exact ih (not_lt.mp hlimit)

theorem relay_readBounded_iff {maxResponseBytes count : ℕ} (hcount : count ≤ maxResponseBytes)
    (chunks : List (List ℕ)) (s : Peer.Relay.State) :
    wp (Peer.Relay.readBounded maxResponseBytes count (chunks.map .chunk ++ [.finish]))
      (fun _ _ => True) (fun _ _ => False) s ↔
      count + chunks.flatten.length ≤ maxResponseBytes := by
  induction chunks generalizing count with
  | nil => exact iff_of_true trivial hcount
  | cons chunk chunks ih =>
    rw [List.map_cons, List.cons_append, Peer.Relay.readBounded, List.flatten_cons,
      List.length_append]
    by_cases hlimit : maxResponseBytes < count + chunk.length
    · simp only [hlimit, if_true]
      exact iff_of_false id (by omega)
    · simp only [hlimit, if_false]
      rw [← Nat.add_assoc]
      exact ih (not_lt.mp hlimit)

variable {chunks : List (List ℕ)} {events : List ModelShareEvent}

/-- **A body passes when it is within the limit**, on either transport. -/
theorem Route.passes_iff (route : Route) {maxResponseBytes : ℕ} :
    route.Passes maxResponseBytes chunks ↔ chunks.flatten.length ≤ maxResponseBytes := by
  cases route with
  | directQuic =>
    constructor
    · intro h
      have := (directQuic_readBody_iff (Nat.zero_le _) chunks Peer.DirectQuic.init).mp (h _)
      rwa [Nat.zero_add] at this
    · exact fun h s => (directQuic_readBody_iff (Nat.zero_le _) chunks s).mpr (by rwa [Nat.zero_add])
  | relayHttps =>
    constructor
    · intro h
      have := (relay_readBounded_iff (Nat.zero_le _) chunks Peer.Relay.init).mp (h _)
      rwa [Nat.zero_add] at this
    · exact fun h s => (relay_readBounded_iff (Nat.zero_le _) chunks s).mpr (by rwa [Nat.zero_add])

/-! ## The decoders -/

/-- The decoder the requester uses, with the arguments it passes. -/
def Provider.Env.version (env : Env) (request : InferenceRequest) : Version :=
  match request.kind with
  | .text => .text
  | .audioTts => .audioTts
  | .multimodal => .multimodal ((calculatorOf request).getD []) env.maxBytes

/-- The Worker's output. -/
def Provider.Env.output (env : Env) (request : InferenceRequest) : List ℕ :=
  match request.kind with
  | .text => (env.execution.deltas.filterMap Delta.text?).flatten
  | .audioTts => env.execution.audio.getD []
  | .multimodal => env.execution.artifact.getD []

/-- Byte strings hold bytes, and a mapping has each key once. -/
structure Provider.Execution.WellTyped (e : Execution) : Prop where
  audio : ∀ audio, e.audio = some audio → ∀ x ∈ audio, x < 256
  artifact : ∀ artifact, e.artifact = some artifact → ∀ x ∈ artifact, x < 256
  actualUsage : ∀ usage, e.actualUsage = .obj usage → (Json.keys usage).Nodup

theorem mapM_text? {deltas : List Delta} {texts : List Str}
    (h : deltas.mapM Delta.text? = some texts) : deltas.filterMap Delta.text? = texts := by
  induction deltas generalizing texts with
  | nil =>
    cases h
    rfl
  | cons delta deltas ih =>
    rw [List.mapM_cons] at h
    obtain ⟨text, htext, h⟩ := Option.bind_eq_some_iff.mp h
    obtain ⟨rest, hrest, h⟩ := Option.bind_eq_some_iff.mp h
    cases h
    rw [List.filterMap_cons_some htext, ih hrest]

theorem deltaText_append (events more : List ModelShareEvent) :
    deltaText (events ++ more) = deltaText events ++ deltaText more := by
  rw [deltaText, List.filter_append, List.flatMap_append]
  rfl

theorem deltaText_delta {data : Json.Object} {text : Str} (h : field data "text" = .str text) :
    deltaText [⟨str "output.delta", data⟩] = text := by
  simp [deltaText, h, Json.str?]

theorem deltaText_others (h : ∀ e ∈ events, e.event ≠ str "output.delta") : deltaText events = [] := by
  rw [deltaText, List.filter_eq_nil_iff.mpr fun e he => by simpa using h e he]
  rfl

theorem deltaText_deltaEvents (contractId : Str) (sequence : ℕ) (texts : List Str) :
    deltaText ((deltaEvents contractId sequence texts).map OutEvent.seen) = texts.flatten := by
  induction texts generalizing sequence with
  | nil => rfl
  | cons text texts ih =>
    rw [deltaEvents, List.map_cons, ← List.singleton_append, deltaText_append, ih, List.flatten_cons,
      OutEvent.seen, deltaText_delta rfl]

/-- The text of a completed text stream is what its deltas say. -/
theorem deltaText_completion {codec : ManifestCodec} (request : InferenceRequest) (texts : List Str)
    (usage : InferenceUsage) (result : ResultManifest codec computeResult) :
    deltaText (((textCompletionOf request texts usage result).events request).map OutEvent.seen) =
      texts.flatten := by
  have hopening : deltaText [OutEvent.seen ("job.accepted", acceptedData request)] = [] :=
    deltaText_others fun e he => by
      rw [List.mem_singleton.mp he]
      exact show str "job.accepted" ≠ str "output.delta" by decide
  have hclosing : ∀ sequence committed manifest, deltaText ((closingEvents request.contractId sequence
      committed manifest).map OutEvent.seen) = [] := fun sequence committed manifest =>
    deltaText_others fun e he => by
      simp only [closingEvents, List.map_cons, List.map_nil, List.mem_cons, List.not_mem_nil,
        or_false] at he
      rcases he with rfl | rfl | rfl
      · exact show str "result.committed" ≠ str "output.delta" by decide
      · exact show str "result.payload" ≠ str "output.delta" by decide
      · exact show str "job.completed" ≠ str "output.delta" by decide
  rw [Completion.events, List.map_cons, ← List.singleton_append, deltaText_append, List.map_append,
    deltaText_append, textCompletionOf, deltaText_deltaEvents, hopening, hclosing, List.nil_append,
    List.append_nil]

/-- A decoder at its end finishes. -/
theorem received_text {b : Binding} {sequence : ℕ} {result : ResultManifest b.codec computeResult}
    (h : feedAll (SseEventDecoder.parse b) (SseEventDecoder.init b.codec) chunks =
      .ok (⟨[], sequence, .done, some result.digest, some result⟩, events)) :
    receive b chunks .text = some ⟨events, result.value, result.digest, deltaText events⟩ := by
  dsimp only [receive]
  rw [h]
  rfl

theorem received_audio {b : Binding} {sequence : ℕ} {audio : List ℕ} {usage : ℤ × ℤ}
    {result : ResultManifest b.codec audioTtsResult}
    (h : feedAll (AudioTtsSseEventDecoder.parse b) (AudioTtsSseEventDecoder.init b.codec) chunks =
      .ok (⟨[], audio, sequence, .done, true, some result.digest, some usage, some result⟩, events)) :
    receive b chunks .audioTts = some ⟨events, result.value, result.digest, audio⟩ := by
  dsimp only [receive]
  rw [h]
  rfl

theorem received_artifact {b : Binding} {calculatorType : Str} {maximumBytes : ℕ} {sequence : ℕ}
    {artifact : List ℕ} {usage : Json.Object} {result : ResultManifest b.codec multimodalResult}
    (h : feedAll (MultimodalArtifactSseEventDecoder.parse b calculatorType maximumBytes)
      (MultimodalArtifactSseEventDecoder.init b.codec) chunks =
      .ok (⟨[], artifact, sequence, .done, true, some result.digest, some usage, some result⟩,
        events)) :
    receive b chunks (.multimodal calculatorType maximumBytes) =
      some ⟨events, result.value, result.digest, artifact⟩ := by
  dsimp only [receive]
  rw [h]
  rfl

/-- **The decoders accept a completed stream**, in every chunking, with its digest and
the Worker's output. -/
theorem received_of_completes {env : Env} {request : InferenceRequest} {c : Completion} {raws : List (List ℕ)}
    (hhex : ∀ bytes, isSha256Hex (env.codec.sha256 bytes) = true) (htyped : env.execution.WellTyped)
    (hchecked : Checked env env.maxBytes request.kind) (hc : completionOf env request = some c)
    (hraws : Framed env.floats (c.events request) raws) (hchunks : chunks.flatten = raws.flatten) :
    ∃ r, receive (env.buyer request) chunks (env.version request) = some r ∧
      r.digest = c.digest ∧ r.output = env.output request := by
  unfold completionOf at hc
  unfold Env.version Env.output
  cases hkind : request.kind with
  | text =>
    rw [hkind] at hc hchecked
    obtain ⟨texts, htexts, hc⟩ := Option.bind_eq_some_iff.mp hc
    obtain ⟨usage, husage, hc⟩ := Option.bind_eq_some_iff.mp hc
    obtain ⟨result, hresult, hc⟩ := Option.bind_eq_some_iff.mp hc
    cases hc
    have htakes := @SseEventDecoder.takesAll_completion (env.buyer request) request texts usage _ _ _
      result hkind rfl rfl hhex (hchecked usage husage) hresult
    have hfeed := feedAll_of_takesAll hraws htakes hchunks
    refine ⟨⟨((textCompletionOf request texts usage result).events request).map OutEvent.seen,
      result.value, result.digest, _⟩, received_text hfeed, rfl, ?_⟩
    rw [mapM_text? htexts]
    exact deltaText_completion request texts usage result
  | audioTts =>
    rw [hkind] at hc hchecked
    obtain ⟨audio, haudio, hc⟩ := Option.bind_eq_some_iff.mp hc
    obtain ⟨inputUnits, hinput, hc⟩ := Option.bind_eq_some_iff.mp hc
    obtain ⟨outputUnits, houtput, hc⟩ := Option.bind_eq_some_iff.mp hc
    obtain ⟨result, hresult, hc⟩ := Option.bind_eq_some_iff.mp hc
    cases hc
    obtain ⟨hne, hlength, hinputs, houtputs⟩ := hchecked audio haudio
    have htakes := @AudioTtsSseEventDecoder.takesAll_completion (env.buyer request) request audio
      inputUnits outputUnits _ result hkind rfl rfl hhex hne (htyped.audio audio haudio) hlength
      ⟨hinputs _ hinput, houtputs _ houtput⟩ hresult
    have hfeed := feedAll_of_takesAll hraws htakes hchunks
    exact ⟨⟨((audioCompletionOf request audio inputUnits outputUnits result).events request).map
      OutEvent.seen, result.value, result.digest, audio⟩, received_audio hfeed, rfl, by rw [haudio]; rfl⟩
  | multimodal =>
    rw [hkind] at hc hchecked
    obtain ⟨usage, husage, hc⟩ := Option.bind_eq_some_iff.mp hc
    obtain ⟨artifact, hartifact, hc⟩ := Option.bind_eq_some_iff.mp hc
    obtain ⟨contentType, hcontentType, hc⟩ := Option.bind_eq_some_iff.mp hc
    obtain ⟨result, hresult, hc⟩ := Option.bind_eq_some_iff.mp hc
    cases hc
    obtain ⟨hne, hlength⟩ := hchecked artifact hartifact
    obtain ⟨hobj, hplain⟩ := validateActualUsage_eq_some husage
    have htakes := @MultimodalArtifactSseEventDecoder.takesAll_completion (env.buyer request)
      ((calculatorOf request).getD []) env.maxBytes request artifact contentType usage result hkind
      rfl rfl rfl hhex hne (htyped.artifact artifact hartifact) hlength (hobj ▸ husage)
      (hplain (htyped.actualUsage usage hobj)) hresult
    have hfeed := feedAll_of_takesAll hraws htakes hchunks
    exact ⟨⟨((multimodalCompletionOf request usage artifact result).events request).map
      OutEvent.seen, result.value, result.digest, artifact⟩, received_artifact hfeed, rfl,
      by rw [hartifact]; rfl⟩

/-! ## Delivery -/

/-- A stream that has not started, of a recorded job. -/
structure Fresh (request : InferenceRequest) (s : State) : Prop where
  terminal : s.terminal = false
  emitted : s.emitted = []
  recorded : s.jobs request.contractId ≠ none

/-- The buyer gets the stream: the transport hands the body over, and the decoder
finishes with the digest the provider recorded and the Worker's output. -/
structure Delivered (env : Env) (request : InferenceRequest) (jobs : Jobs) (route : Route)
    (chunks : List (List ℕ)) : Prop where
  passes : route.Passes env.maxBytes chunks
  received : ∃ r, receive (env.buyer request) chunks (env.version request) = some r ∧
    Recorded r.digest (jobs request.contractId) ∧ r.output = env.output request

/-- **What the provider completes, the buyer receives**, in every chunking and over
either transport, exactly when the framed events are within the byte limit. -/
theorem delivered_iff {env : Env} {request : InferenceRequest} {contract : Json.Object} {s : State}
    (hhex : ∀ bytes, isSha256Hex (env.codec.sha256 bytes) = true)
    (htyped : env.execution.WellTyped) (hs : Fresh request s)
    (hdone : (final (streamFor env request contract) s).terminal = true) (route : Route)
    {chunks : List (List ℕ)}
    (hchunks : chunks.flatten = (final (streamFor env request contract) s).emitted.flatten) :
    Delivered env request (final (streamFor env request contract) s).jobs route chunks ↔
      framedSize env request ≤ env.maxBytes := by
  obtain ⟨hchecked, c, hc, hraws, hdigest⟩ :=
    streamFor_completes hs.terminal hs.emitted hs.recorded hdone
  have hsize : framedSize env request = chunks.flatten.length := by
    rw [framedSize, hc, hchunks, flatten_of_framed hraws]
  rw [hsize]
  constructor
  · exact fun h => route.passes_iff.mp h.passes
  · intro h
    obtain ⟨r, hr, hrdigest, houtput⟩ := received_of_completes hhex htyped hchecked hc hraws hchunks
    exact ⟨route.passes_iff.mpr h, r, hr, hrdigest ▸ hdigest, houtput⟩

namespace HelloSample

open Sample (contractId requestDigest floats)

def manifest : Json.Object :=
  ComputeResultManifest.fields contractId requestDigest (str "hello") (str "stop")
    (List.replicate 16 0)

/-- The members in canonical order. -/
def canonicalText : Str :=
  str "\x7b\"contractId\":\"3f2b1c4d-5e6f-4a7b-8c9d-0e1f2a3b4c5d\",\"finishReason\":\"stop\"," ++
    str "\"nonce\":\"AAAAAAAAAAAAAAAAAAAAAA\",\"parts\":[\x7b\"text\":\"hello\",\"type\":\"text\"\x7d]," ++
    str "\"requestDigest\":\"" ++ requestDigest ++
    str "\",\"schemaVersion\":\"ai2apps.compute.result.v1\"\x7d"

def codec : ManifestCodec where
  canonical v :=
    if JsonText.dumps floats v = JsonText.dumps floats (.obj manifest) then some canonicalText
    else none
  sha256 bytes :=
    if bytes = resultSchemaVersion ++ 0 :: canonicalText then
      str "d845f5606b1728ab4142d3330a8eba22fbdf163523c30b27ee8cfa41c03c8e34"
    else List.replicate 64 48
  isUuid s := s = contractId

/-- A Worker that says hello, in a Session with the given byte limit. -/
def env (maxBytes : ℕ) : Env where
  codec := codec
  floats := floats
  jwtCodec := Peer.ReplayExample.codec
  jtiDigest := Peer.ReplayExample.digest
  toInt := fun _ => none
  session := some
    { ownerUserId := Peer.ReplayExample.provider.userId
      session := { Peer.ReplayExample.session with
        transportPolicy := ⟨[str "direct_quic"], maxBytes, 1, 1⟩ }
      status := str "active"
      expiresAt := ⟨0, Clock.DateTime.zero_inRange⟩ }
  now := ⟨0, Clock.DateTime.zero_inRange⟩
  jwks := none
  contract := none
  signerFactory := none
  signAcceptance := none
  inputAcceptance := none
  inferenceHandler := none
  execution :=
    { deltas := [.text (str "hello")]
      usage := some ⟨1, 1, str "stop"⟩
      audio := none
      inputUnits := .null
      outputUnits := .null
      artifact := none
      contentType := none
      actualUsage := .null }
  nonce := List.replicate 16 0
  signResult := none
  resultCommitment := some [(str "status", .str (str "result_committed"))]
  unstarted := false
  consumer := fun _ => none

def request : InferenceRequest where
  sessionId := Peer.ReplayExample.session.sessionId
  contractId := contractId
  requestDigest := requestDigest
  kind := .text
  manifest := []
  requestPayload := none

/-- The stream is about to start. -/
def start : State where
  jobs := fun _ => some (NewJob.record
    { sessionId := request.sessionId, ownerUserId := Peer.ReplayExample.provider.userId
      role := str "provider", requestDigest := requestDigest, calculatorType := none
      maximumChargeMinor := .null })
  replay := []
  emitted := []
  terminal := false

theorem start_fresh : Fresh request start := ⟨rfl, rfl, Option.some_ne_none _⟩

theorem sha256_hex (bytes : List ℕ) : isSha256Hex (codec.sha256 bytes) = true := by
  unfold codec
  dsimp only
  split_ifs <;> decide +kernel

theorem execution_wellTyped (maxBytes : ℕ) : (env maxBytes).execution.WellTyped where
  audio _ h := nomatch h
  artifact _ h := nomatch h
  actualUsage _ h := nomatch h

end HelloSample

/-- With a limit that the framed events keep, the greeting is delivered. -/
theorem delivered_hello : Delivered (HelloSample.env 2048) HelloSample.request
    (final (streamFor (HelloSample.env 2048) HelloSample.request []) HelloSample.start).jobs .relayHttps
    [(final (streamFor (HelloSample.env 2048) HelloSample.request [])
      HelloSample.start).emitted.flatten] :=
  (delivered_iff HelloSample.sha256_hex (HelloSample.execution_wellTyped 2048) HelloSample.start_fresh
    (by decide +kernel) .relayHttps (List.append_nil _)).mpr (by decide +kernel)

/-- **A completed stream that no transport delivers**: five bytes of output within a
limit of five bytes take more as they are sent. -/
theorem hello_not_delivered :
    (final (streamFor (HelloSample.env 5) HelloSample.request []) HelloSample.start).terminal = true ∧
      ∀ route chunks,
        chunks.flatten = (final (streamFor (HelloSample.env 5) HelloSample.request [])
          HelloSample.start).emitted.flatten →
        ¬ Delivered (HelloSample.env 5) HelloSample.request
          (final (streamFor (HelloSample.env 5) HelloSample.request []) HelloSample.start).jobs route
          chunks := by
  refine ⟨by decide +kernel, fun route chunks hchunks h => ?_⟩
  have hpasses := route.passes_iff.mp h.passes
  rw [hchunks] at hpasses
  exact absurd hpasses (by decide +kernel)

end AI2Apps.ModelSharing
