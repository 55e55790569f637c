import AI2Apps.Lib.JsonRoundTrip
import AI2Apps.ModelSharing.DecoderSteps
import AI2Apps.ModelSharing.Provider
import Mathlib.Data.List.Nodup

/-!
# What a buyer's receipt rests on

A buyer signs a delivery receipt once a decoder has finished.  `receive` is the
decoding of a whole stream to that point, in any chunking, for each version, and
`receive_verified` says what has been verified then: the order and the numbering
of the events, the manifest against its schema, its digest and its bindings, and, where the
version ties the output to the manifest, that the output is what it describes.

The versions differ.  A multimodal manifest has no member for the request digest,
which only the first event binds, and it may list more artifacts than the one
that is delivered; the deltas of a text stream are not compared with the parts of
its manifest.
-/

namespace AI2Apps.ModelSharing

/-- A protocol version with the arguments of its decoder. -/
inductive Version where
  | text
  | audioTts
  | multimodal (calculatorType : Str) (maximumBytes : ℕ)

/-- The binding of the version's stream. -/
def Version.stream (b : Binding) : Version → StreamBinding
  | .text => b.stream 1 "output.delta"
  | .audioTts => b.stream 2 "output.audio.chunk"
  | .multimodal _ _ => b.stream 3 "output.artifact.chunk"

/-- The kind of the version's manifest. -/
def Version.kind : Version → ResultKind
  | .text => computeResult
  | .audioTts => audioTtsResult
  | .multimodal _ _ => multimodalResult

/-- What a finished decoder leaves: the accepted events, the manifest and its
digest, and the delivered output. -/
structure Received where
  events : List ModelShareEvent
  manifest : Json.Object
  digest : Str
  output : List ℕ

/-- The text a consumer of version 1 has been given. -/
def deltaText (events : List ModelShareEvent) : Str :=
  (events.filter fun e => e.event = str "output.delta").flatMap fun e =>
    ((field e.data "text").str?).getD []

/-- Feed the chunks and finish; `none` when that raises. -/
def receive (b : Binding) (chunks : List (List ℕ)) : Version → Option Received
  | .text =>
    match feedAll (SseEventDecoder.parse b) (SseEventDecoder.init b.codec) chunks with
    | .error _ => none
    | .ok (d, events) =>
      match SseEventDecoder.finish b d with
      | .error _ => none
      | .ok () => d.state.resultManifest.map fun m => ⟨events, m.value, m.digest, deltaText events⟩
  | .audioTts =>
    match feedAll (AudioTtsSseEventDecoder.parse b) (AudioTtsSseEventDecoder.init b.codec)
        chunks with
    | .error _ => none
    | .ok (d, events) =>
      match AudioTtsSseEventDecoder.finish b d with
      | .error _ => none
      | .ok () => d.state.resultManifest.map fun m => ⟨events, m.value, m.digest, d.state.audio⟩
  | .multimodal calculatorType maximumBytes =>
    match feedAll (MultimodalArtifactSseEventDecoder.parse b calculatorType maximumBytes)
        (MultimodalArtifactSseEventDecoder.init b.codec) chunks with
    | .error _ => none
    | .ok (d, events) =>
      match MultimodalArtifactSseEventDecoder.finish b d with
      | .error _ => none
      | .ok () => d.state.resultManifest.map fun m => ⟨events, m.value, m.digest, d.state.artifact⟩

/-! ## What is verified -/

/-- The events are in the frozen order; the commitment names the digest of the
manifest that is released. -/
def InOrder (b : StreamBinding) (r : Received) : Prop :=
  ∃ a outputs c p j, r.events = a :: outputs ++ [c, p, j] ∧ Opening b a outputs ∧
    Commits c r.digest ∧ Releases p r.manifest ∧ j.event = str "job.completed"

/-- The digest is the manifest's. -/
def Digested (b : Binding) (v : Version) (r : Received) : Prop :=
  ∃ bytes, b.codec.canonical (.obj r.manifest) = some bytes ∧
    r.digest = b.codec.sha256 (v.kind.domain ++ 0 :: bytes)

/-- The member of a manifest that describes a content: its size and its digest. -/
structure Described (b : Binding) (item : Json.Object) (sizeKey digestKey : String) (size : Json)
    (content : List ℕ) : Prop where
  size : Json.memberEq item (str sizeKey) size = true
  digest : Json.lookup (str digestKey) item = some (.str (b.codec.sha256 content))

def DescribesAudio (b : Binding) (part : Json.Object) (content : List ℕ) : Prop :=
  Described b part "sizeBytes" "contentDigest" (.int content.length) content

def DescribesArtifact (b : Binding) (artifact : Json.Object) (content : List ℕ) : Prop :=
  Described b artifact "byteSize" "sha256" (.str (JsonText.natText content.length)) content

/-- The output is a content with the property, and the only one. -/
def IsExactly (p : List ℕ → Prop) (output : List ℕ) : Prop := ∀ content, p content ↔ content = output

/-- What a version ties the output to. -/
def ContentVerified (b : Binding) (r : Received) : Version → Prop
  | .text => True
  | .audioTts => ∃ part, Json.lookup (str "parts") r.manifest = some (.arr [.obj part]) ∧
      IsExactly (DescribesAudio b part) r.output
  | .multimodal _ _ => ∃ artifact others,
      Json.lookup (str "artifacts") r.manifest = some (.arr (.obj artifact :: others)) ∧
      IsExactly (DescribesArtifact b artifact) r.output

/-- The manifest binds the request, where the version's schema has a member for it. -/
def RequestBound (b : Binding) (r : Received) : Version → Prop
  | .text | .audioTts =>
    Json.lookup (str "requestDigest") r.manifest = some (.str b.requestDigest)
  | .multimodal _ _ => True

/-- What has been verified when a decoder finishes. -/
structure Verified (b : Binding) (v : Version) (r : Received) : Prop where
  order : InOrder (v.stream b) r
  numbered : ∀ i e, r.events[i]? = some e → Numbered (v.stream b) i e
  valid : v.kind.schema.validates b.codec.isUuid (.obj r.manifest) = true
  digested : Digested b v r
  contract : Json.lookup (str "contractId") r.manifest = some (.str b.contractId)
  request : RequestBound b r v
  content : ContentVerified b r v

/-! ## From a finished decoder -/

section Finished

variable {b : Binding}

/-- The parts of a run that every version shares. -/
theorem order_of_run {sb : StreamBinding} {view : View} {events : List ModelShareEvent}
    {manifest : Json.Object} {digest : Str} {output : List ℕ} (hb : sb.Distinct)
    (hrun : Run sb .start events view) (hdone : view.phase = .done)
    (hmanifest : view.manifest = some (manifest, digest)) :
    InOrder sb ⟨events, manifest, digest, output⟩ ∧
      ∀ i e, events[i]? = some e → Numbered sb i e := by
  obtain ⟨hordered, -, hnumbered⟩ := ordered_of_run hb hrun
  unfold Ordered at hordered
  rw [hdone] at hordered
  obtain ⟨a, outputs, c, p, j, m, hevents, hopen, hm, hcommits, hreleases, hj⟩ := hordered
  rw [hmanifest] at hm
  cases hm
  exact ⟨⟨a, outputs, c, p, j, hevents, hopen, hcommits, hreleases, hj⟩, hnumbered⟩

theorem digested_of_manifest (v : Version) (m : ResultManifest b.codec v.kind)
    {events : List ModelShareEvent} {output : List ℕ} :
    Digested b v ⟨events, m.value, m.digest, output⟩ := ⟨m.bytes, m.canonical, rfl⟩

/-- `manifest["key"] == text`. -/
theorem member_eq_str {kind : ResultKind} {m : ResultManifest b.codec kind} {key : String} {s : Str}
    (h : Json.pyEq (m.member key) (.str s) = true) :
    Json.lookup (str key) m.value = some (.str s) :=
  Json.memberEq_str_iff.mp h

theorem finish_ok {check : Bool} {message : String} {u : Unit} (h : ensure check message = .ok u) :
    check = true := by
  unfold ensure at h
  split_ifs at h with hc
  exact hc

/-- A content with this size and digest is the one that was hashed. -/
theorem isExactly_of_described {item : Json.Object} {sizeKey digestKey : String}
    {size : List ℕ → Json} {output : List ℕ} (hinj : Function.Injective b.codec.sha256)
    (h : Described b item sizeKey digestKey (size output) output) :
    IsExactly (fun content => Described b item sizeKey digestKey (size content) content) output := by
  intro content
  constructor
  · intro hc
    have heq := hc.digest.symm.trans h.digest
    exact hinj (Json.str.inj (Option.some.inj heq))
  · rintro rfl
    exact h

/-- The first item of a valid array of records. -/
theorem firstItem_of_valid {isUuid : Str → Bool} {m : Json.Object} {key : Str} {minItems maxItems : ℕ}
    {properties : List (Str × Schema)} {v : Json} (hmin : 1 ≤ minItems)
    (hv : Json.lookup key m = some v)
    (h : (Schema.array minItems maxItems (.record properties)).validates isUuid v = true) :
    ∃ item others, v = .arr (.obj item :: others) ∧ others.length < maxItems ∧
      firstItem v = item := by
  obtain ⟨vs, rfl, hlen, hmax, hitems⟩ := Schema.validates_array_iff.mp h
  cases vs with
  | nil => exact absurd hlen (by simp; omega)
  | cons w others =>
    obtain ⟨item, rfl, -⟩ := Schema.validates_record_iff.mp (hitems w List.mem_cons_self)
    rw [List.length_cons] at hmax
    exact ⟨item, others, rfl, by omega, rfl⟩

/-- A property of a valid manifest. -/
theorem property_of_valid {codec : ManifestCodec} {kind : ResultKind} (m : ResultManifest codec kind)
    {properties : List (Str × Schema)} (hkind : kind.schema = .record properties) {key : Str}
    {s : Schema} (hmem : (key, s) ∈ properties) :
    ∃ v, Json.lookup key m.value = some v ∧ s.validates codec.isUuid v = true := by
  have hvalid := m.valid
  rw [hkind] at hvalid
  obtain ⟨o, ho, -, hprops⟩ := Schema.validates_record_iff.mp hvalid
  cases ho
  exact hprops (key, s) hmem

end Finished

/-- **What a receipt rests on**: whenever a decoder finishes, on any bytes in any
chunking, its stream was in order, its manifest is the committed one and bound to
the Contract, and the output is the content the version ties to the manifest. -/
theorem receive_verified {b : Binding} (hinj : Function.Injective b.codec.sha256)
    {chunks : List (List ℕ)} {v : Version} {r : Received} (h : receive b chunks v = some r) :
    Verified b v r := by
  cases v with
  | text =>
    dsimp only [receive] at h
    split at h
    · cases h
    rename_i d events hfeed
    split at h
    · cases h
    rename_i hfinish
    obtain ⟨m, hm, rfl⟩ := Option.map_eq_some_iff.mp h
    obtain ⟨-, hfinish⟩ := ensure_bind_ok hfinish
    have hdone := finish_ok hfinish
    simp only [Bool.and_eq_true, decide_eq_true_eq] at hdone
    obtain ⟨hrun, hkeeps⟩ := run_of_feedAll (fun _ _ _ _ => SseEventDecoder.parse_spec) hfeed
    have hmatched : SseEventDecoder.Matched b d.state :=
      hkeeps fun m hm => absurd hm (by simp [SseEventDecoder.init])
    have hbound := hmatched m hm
    obtain ⟨horder, hnumbered⟩ := @order_of_run _ _ _ m.value m.digest (deltaText events)
      (SseEventDecoder.distinct b) hrun hdone.1 (by simp [SseEventDecoder.view, hm])
    exact ⟨horder, hnumbered, m.valid, digested_of_manifest .text m, member_eq_str hbound.1,
      member_eq_str hbound.2, trivial⟩
  | audioTts =>
    dsimp only [receive] at h
    split at h
    · cases h
    rename_i d events hfeed
    split at h
    · cases h
    rename_i hfinish
    obtain ⟨m, hm, rfl⟩ := Option.map_eq_some_iff.mp h
    have hdone := finish_ok hfinish
    simp only [Bool.and_eq_true, decide_eq_true_eq] at hdone
    obtain ⟨hrun, hkeeps⟩ := run_of_feedAll (fun _ _ _ _ => AudioTtsSseEventDecoder.parse_spec) hfeed
    have hmatched : AudioTtsSseEventDecoder.Matched b d.state :=
      hkeeps fun m hm => absurd hm (by simp [AudioTtsSseEventDecoder.init])
    obtain ⟨-, hmatch⟩ := hmatched m hm
    simp only [AudioTtsSseEventDecoder.manifestMatches, Bool.and_eq_true] at hmatch
    obtain ⟨⟨⟨⟨⟨hcontract, hrequest⟩, -⟩, -⟩, hsize⟩, hcontent⟩ := hmatch
    obtain ⟨horder, hnumbered⟩ := @order_of_run _ _ _ m.value m.digest d.state.audio
      (AudioTtsSseEventDecoder.distinct b) hrun hdone.1.2
      (by simp [AudioTtsSseEventDecoder.view, hm])
    obtain ⟨parts, hparts, hvalid⟩ := property_of_valid m rfl
      (List.mem_cons_of_mem _ (List.mem_cons_of_mem _ (List.mem_cons_of_mem _ List.mem_cons_self)))
    obtain ⟨part, others, rfl, hothers, hfirst⟩ := firstItem_of_valid le_rfl hparts hvalid
    obtain rfl : others = [] := List.length_eq_zero_iff.mp (by omega)
    have hmember : m.member "parts" = .arr [.obj part] := by rw [ResultManifest.member, hparts]; rfl
    rw [hmember, hfirst] at hsize hcontent
    exact ⟨horder, hnumbered, m.valid, digested_of_manifest .audioTts m, member_eq_str hcontract,
      member_eq_str hrequest, part, hparts,
      isExactly_of_described hinj ⟨hsize, Json.memberEq_str_iff.mp hcontent⟩⟩
  | multimodal calculatorType maximumBytes =>
    dsimp only [receive] at h
    split at h
    · cases h
    rename_i d events hfeed
    split at h
    · cases h
    rename_i hfinish
    obtain ⟨m, hm, rfl⟩ := Option.map_eq_some_iff.mp h
    have hdone := finish_ok hfinish
    simp only [Bool.and_eq_true, decide_eq_true_eq] at hdone
    obtain ⟨hrun, hkeeps⟩ :=
      run_of_feedAll (fun _ _ _ _ => MultimodalArtifactSseEventDecoder.parse_spec) hfeed
    have hmatched : MultimodalArtifactSseEventDecoder.Matched b calculatorType d.state :=
      hkeeps fun m hm => absurd hm (by simp [MultimodalArtifactSseEventDecoder.init])
    obtain ⟨-, hmatch⟩ := hmatched m hm
    simp only [MultimodalArtifactSseEventDecoder.manifestMatches, Bool.and_eq_true] at hmatch
    obtain ⟨⟨⟨⟨⟨hcontract, -⟩, -⟩, -⟩, hsize⟩, hcontent⟩ := hmatch
    obtain ⟨horder, hnumbered⟩ := @order_of_run _ _ _ m.value m.digest d.state.artifact
      (MultimodalArtifactSseEventDecoder.distinct b) hrun hdone.1.2
      (by simp [MultimodalArtifactSseEventDecoder.view, hm])
    obtain ⟨artifacts, hartifacts, hvalid⟩ := property_of_valid m rfl
      (List.mem_cons_of_mem _ (List.mem_cons_of_mem _ (List.mem_cons_of_mem _
        (List.mem_cons_of_mem _ List.mem_cons_self))))
    obtain ⟨artifact, others, rfl, -, hfirst⟩ := firstItem_of_valid (by norm_num) hartifacts hvalid
    have hmember : m.member "artifacts" = .arr (.obj artifact :: others) := by
      rw [ResultManifest.member, hartifacts]; rfl
    rw [hmember, hfirst] at hsize hcontent
    exact ⟨horder, hnumbered, m.valid,
      digested_of_manifest (.multimodal calculatorType maximumBytes) m, member_eq_str hcontract,
      trivial, artifact, others, hartifacts,
      isExactly_of_described hinj ⟨hsize, Json.memberEq_str_iff.mp hcontent⟩⟩

/-! ## What is not verified

The output of a text stream is not compared with its manifest, the first artifact
of a multimodal manifest need not be the only one, and the manifest of a
multimodal stream does not bind the request. -/

/-- The texts of the parts of a manifest. -/
def partsText (manifest : Json.Object) : Str :=
  ((field manifest "parts").arr?.getD []).flatMap fun part =>
    ((field (part.obj?.getD []) "text").str?).getD []

/-- The output is exactly what the manifest describes: the texts of its parts, its
single audio part, all of its artifacts. -/
def ContentDescribed (b : Binding) (r : Received) : Version → Prop
  | .text => r.output = partsText r.manifest
  | .audioTts => ContentVerified b r .audioTts
  | .multimodal _ _ => ∃ artifacts contents,
      Json.lookup (str "artifacts") r.manifest = some (.arr (artifacts.map .obj)) ∧
      List.Forall₂ (DescribesArtifact b) artifacts contents ∧ r.output = contents.flatten

/-- Everything a receipt could be taken to vouch for. -/
structure FullyVerified (b : Binding) (v : Version) (r : Received) : Prop where
  verified : Verified b v r
  request : Json.lookup (str "requestDigest") r.manifest = some (.str b.requestDigest)
  content : ContentDescribed b r v

/-- An artifact's `byteSize` is the length of what it describes. -/
theorem length_of_described {b : Binding} {artifact : Json.Object} {content : List ℕ} {size : Str}
    (h : DescribesArtifact b artifact content)
    (hsize : Json.lookup (str "byteSize") artifact = some (.str size)) :
    content.length = JsonText.ofDigits size := by
  have heq := Json.memberEq_str_iff.mp h.size
  rw [hsize] at heq
  rw [Json.str.inj (Option.some.inj heq)]
  exact (JsonText.ofDigits_natText content.length).symm

/-- A digest function given by the digests of some byte strings, and texts that are
no digests elsewhere. -/
def tableDigest (table : List (List ℕ × Str)) (bytes : List ℕ) : Str :=
  match table.find? fun entry => entry.1 = bytes with
  | some entry => entry.2
  | none => 120 :: bytes

theorem tableDigest_injective {table : List (List ℕ × Str)}
    (hdistinct : (table.map Prod.snd).Nodup) (hdigest : ∀ e ∈ table, e.2.head? ≠ some 120) :
    Function.Injective (tableDigest table) := by
  intro x y h
  unfold tableDigest at h
  split at h
  · rename_i e he
    have hmem := List.mem_of_find?_eq_some he
    have hx := List.find?_some he
    rw [decide_eq_true_eq] at hx
    split at h
    · rename_i e' he'
      have hmem' := List.mem_of_find?_eq_some he'
      have hy := List.find?_some he'
      rw [decide_eq_true_eq] at hy
      obtain rfl := List.inj_on_of_nodup_map hdistinct hmem hmem' h
      exact hx.symm.trans hy
    · exact absurd (by rw [h]; rfl) (hdigest e hmem)
  · split at h
    · rename_i e' he'
      exact absurd (by rw [← h]; rfl) (hdigest e' (List.mem_of_find?_eq_some he'))
    · exact (List.cons.inj h).2

namespace Sample

def contractId : Str := str "3f2b1c4d-5e6f-4a7b-8c9d-0e1f2a3b4c5d"

def requestDigest : Str := List.replicate 64 48

/-- No float occurs in the samples. -/
def floats : FloatText := ⟨fun _ => [], fun _ => .nan⟩

/-- Members in canonical order are written canonically. -/
def canonical (v : Json) : Option (List ℕ) :=
  if v.plain then Utf8.encode (JsonText.dumps floats v) else none

theorem canonical_inj {v w : Json} {bytes : List ℕ} (hv : canonical v = some bytes)
    (hw : canonical w = some bytes) : v = w := by
  unfold canonical at hv hw
  split_ifs at hv hw with h h'
  have hdecode := Utf8.decode_encode hv
  rw [Utf8.decode_encode hw] at hdecode
  exact JsonText.dumps_injOn floats h h' (Option.some.inj hdecode).symm

/-- The text part says something else than the delta does. -/
def textManifest : Json.Object :=
  [(str "contractId", .str contractId),
    (str "finishReason", .str (str "stop")),
    (str "nonce", .str (str "AAAAAAAAAAAAAAAAAAAAAA")),
    (str "parts", .arr [.obj [(str "text", .str (str "no")), (str "type", .str (str "text"))]]),
    (str "requestDigest", .str requestDigest),
    (str "schemaVersion", .str resultSchemaVersion)]

def audio : List ℕ := List.replicate 44 0

def audioDigest : Str := str "85759b3811ff7dc47b03792ac85317be51431a3f9e01dcafce317ed736a391b0"

def audioManifest : Json.Object :=
  [(str "contractId", .str contractId),
    (str "finishReason", .str (str "stop")),
    (str "nonce", .str (str "AAAAAAAAAAAAAAAAAAAAAA")),
    (str "parts", .arr [.obj
      [(str "artifactId", .str (str "audio-0")),
        (str "chunkManifestDigest", .null),
        (str "contentDigest", .str audioDigest),
        (str "mediaType", .str (str "audio/wav")),
        (str "sizeBytes", .int 44),
        (str "type", .str (str "artifact"))]]),
    (str "requestDigest", .str requestDigest),
    (str "schemaVersion", .str audioTtsResultSchemaVersion),
    (str "usage", .obj
      [(str "inputUnit", .str (str "unicode_scalar")),
        (str "inputUnits", .int 1),
        (str "outputUnit", .str (str "audio_millisecond")),
        (str "outputUnits", .int 1)])]

def artifactDigest : Str := str "4bf5122f344554c53bde2ebb8cd2b7e3d1600ad631c385a5d7cce23c7785459a"

/-- The second of two artifacts is never delivered. -/
def artifacts : List Json.Object :=
  [[(str "byteSize", .str (str "1")),
      (str "contentType", .str (str "image/png")),
      (str "sha256", .str artifactDigest)],
    [(str "byteSize", .str (str "2")),
      (str "contentType", .str (str "image/png")),
      (str "sha256", .str (str "50cff72c8e550546d661ec235431888fb2f9f7bada40c17020d47f6ccc117aae"))]]

def imageUsage : Json.Object :=
  [(str "imageCount", .int 1), (str "outputPixels", .str (str "1"))]

def imageManifest : Json.Object :=
  [(str "actualUsage", .obj imageUsage),
    (str "artifacts", .arr (artifacts.map .obj)),
    (str "calculatorType", .str (str "image_v1")),
    (str "contractId", .str contractId),
    (str "schemaVersion", .str multimodalResultSchemaVersion)]

/-- What a digest is taken of, in bytes. -/
def preimage (domain : Str) (manifest : Json.Object) : List ℕ :=
  domain ++ 0 :: (canonical (.obj manifest)).getD []

def textDigest : Str := str "eb11400dab90cdd82339b5adb0927bc586e103cb5dbdbb28cfb5940ea9812f0e"

def audioResultDigest : Str := str "2b670628a6209e64f21dee90a1f80d88cf71689de55db8c8f9a1a54ac87f4cd9"

def imageDigest : Str := str "2876ef9a93831675f9072ba61539914ff6cd3492de526be480f3d0405a671eac"

def table : List (List ℕ × Str) :=
  [(preimage resultSchemaVersion textManifest, textDigest),
    (preimage audioTtsResultSchemaVersion audioManifest, audioResultDigest),
    (preimage resultDigestDomain imageManifest, imageDigest),
    (audio, audioDigest),
    ([1], artifactDigest)]

def binding : Binding where
  codec := ⟨canonical, tableDigest table, fun s => s = contractId⟩
  floats := floats
  contractId := contractId
  requestDigest := requestDigest

theorem sha256_injective : Function.Injective binding.codec.sha256 :=
  tableDigest_injective (by decide +kernel) (by decide +kernel)

/-- Events numbered from zero, each with its own fields. -/
def streamOf (events : List (String × Json.Object)) : List ℕ :=
  (events.zipIdx.filterMap fun e => Provider.sse floats e.1.1
    ([(str "contractId", .str contractId), (str "sequence", .int e.2)] ++ e.1.2)).flatten

def accepted (version : ℤ) (more : Json.Object) : String × Json.Object :=
  ("job.accepted",
    [(str "protocolVersion", .int version), (str "requestDigest", .str requestDigest)] ++ more)

def chunk (event artifactId : String) (content : List ℕ) : String × Json.Object :=
  (event,
    [(str "artifactId", .str (str artifactId)), (str "offset", .int 0),
      (str "bytes", .str (Base64Url.encode content)), (str "final", .bool true)])

def committed (digest : Str) (usage : Json.Object) : String × Json.Object :=
  ("result.committed", (str "resultDigest", .str digest) :: usage)

def closing (manifest : Json.Object) : List (String × Json.Object) :=
  [("result.payload", [(str "resultManifest", .obj manifest)]), ("job.completed", [])]

def textStream : List ℕ :=
  streamOf (accepted 1 [] :: ("output.delta", [(str "text", .str (str "yes"))]) ::
    committed textDigest [(str "inputTokens", .int 1), (str "outputTokens", .int 1)] ::
    closing textManifest)

def audioStream : List ℕ :=
  streamOf (accepted 2 [] :: chunk "output.audio.chunk" "audio-0" audio ::
    committed audioResultDigest
      [(str "inputUnit", .str (str "unicode_scalar")), (str "inputUnits", .int 1),
        (str "outputUnit", .str (str "audio_millisecond")), (str "outputUnits", .int 1)] ::
    closing audioManifest)

def image : Version := .multimodal (str "image_v1") 1024

def imageStream : List ℕ :=
  streamOf (accepted 3 [(str "calculatorType", .str (str "image_v1"))] ::
    chunk "output.artifact.chunk" "artifact-0" [1] ::
    committed imageDigest [(str "actualUsage", .obj imageUsage)] :: closing imageManifest)

/-- What a stream leaves, without the events. -/
def outcome (v : Version) (bytes : List ℕ) : Option (Bool × Str × List ℕ) :=
  (receive binding [bytes] v).map fun r =>
    ((Json.obj r.manifest).plain, JsonText.dumps floats (.obj r.manifest), r.output)

theorem receive_of_outcome {v : Version} {bytes output : List ℕ} {manifest : Json.Object}
    (hplain : (Json.obj manifest).plain = true)
    (h : outcome v bytes = some (true, JsonText.dumps floats (.obj manifest), output)) :
    ∃ r, receive binding [bytes] v = some r ∧ r.manifest = manifest ∧ r.output = output := by
  obtain ⟨r, hr, h⟩ := Option.map_eq_some_iff.mp h
  simp only [Prod.mk.injEq] at h
  obtain ⟨hr', hdumps, houtput⟩ := h
  exact ⟨r, hr, Json.obj.inj (JsonText.dumps_injOn floats hr' hplain hdumps), houtput⟩

end Sample

/-- A speech stream, and what its receipt rests on. -/
theorem receive_verified_audio :
    ∃ r, receive Sample.binding [Sample.audioStream] .audioTts = some r ∧
      Verified Sample.binding .audioTts r := by
  obtain ⟨r, hr, -⟩ := @Sample.receive_of_outcome .audioTts Sample.audioStream Sample.audio
    Sample.audioManifest (by decide +kernel) (by decide +kernel)
  exact ⟨r, hr, receive_verified Sample.sha256_injective hr⟩

/-- **More is not verified**: a text stream whose delta is not its manifest's text is
received, and so is a multimodal stream whose manifest neither binds the request
nor describes only what was delivered. -/
theorem receive_not_fullyVerified :
    Function.Injective Sample.binding.codec.sha256 ∧
      (∀ v w bytes, Sample.binding.codec.canonical v = some bytes →
        Sample.binding.codec.canonical w = some bytes → v = w) ∧
      (∃ r, receive Sample.binding [Sample.textStream] .text = some r ∧
        ¬ ContentDescribed Sample.binding r .text ∧ ¬ FullyVerified Sample.binding .text r) ∧
      ∃ r, receive Sample.binding [Sample.imageStream] Sample.image = some r ∧
        Json.lookup (str "requestDigest") r.manifest ≠ some (.str Sample.binding.requestDigest) ∧
        ¬ ContentDescribed Sample.binding r Sample.image ∧
        ¬ FullyVerified Sample.binding Sample.image r := by
  obtain ⟨r, hr, hmanifest, houtput⟩ := @Sample.receive_of_outcome .text Sample.textStream
    (str "yes") Sample.textManifest (by decide +kernel) (by decide +kernel)
  obtain ⟨r', hr', hmanifest', houtput'⟩ := @Sample.receive_of_outcome Sample.image
    Sample.imageStream [1] Sample.imageManifest (by decide +kernel) (by decide +kernel)
  have htext : ¬ ContentDescribed Sample.binding r .text := by
    rw [ContentDescribed, hmanifest, houtput]
    decide +kernel
  have hrequest : Json.lookup (str "requestDigest") r'.manifest ≠
      some (.str Sample.binding.requestDigest) := by
    have hnone : Json.lookup (str "requestDigest") Sample.imageManifest = none := rfl
    rw [hmanifest', hnone]
    exact (Option.some_ne_none _).symm
  have hcontent : ¬ ContentDescribed Sample.binding r' Sample.image := by
    rintro ⟨artifacts, contents, hlookup, hall, hflat⟩
    have hsample : Json.lookup (str "artifacts") Sample.imageManifest =
        some (.arr (Sample.artifacts.map .obj)) := rfl
    rw [hmanifest', hsample] at hlookup
    obtain rfl := List.map_injective_iff.mpr (fun _ _ => Json.obj.inj)
      (Json.arr.inj (Option.some.inj hlookup))
    -- the two artifacts have one byte and two bytes, and one byte was delivered
    obtain ⟨c₁, c₂, h₁, h₂, rfl⟩ : ∃ c₁ c₂, DescribesArtifact Sample.binding Sample.artifacts[0] c₁ ∧
        DescribesArtifact Sample.binding Sample.artifacts[1] c₂ ∧ contents = [c₁, c₂] := by
      unfold Sample.artifacts at hall
      cases hall with
      | cons h₁ hall =>
        cases hall with
        | cons h₂ hall =>
          cases hall
          exact ⟨_, _, h₁, h₂, rfl⟩
    have hlength₁ := length_of_described h₁ rfl
    have hlength₂ := length_of_described h₂ rfl
    rw [houtput'] at hflat
    have hlength := congrArg List.length hflat
    simp only [List.flatten_cons, List.flatten_nil, List.length_append, List.length_cons,
      List.length_nil, hlength₁, hlength₂] at hlength
    exact absurd hlength (by decide)
  exact ⟨Sample.sha256_injective, fun v w bytes => Sample.canonical_inj,
    ⟨r, hr, htext, fun h => htext h.content⟩,
    r', hr', hrequest, hcontent, fun h => hrequest h.request⟩

end AI2Apps.ModelSharing
