import AI2Apps.ModelSharing.Emission
import AI2Apps.ModelSharing.Receipts

/-!
# The decoders accept what the provider sends

The events of a completed stream take the decoder of their version from its first
state to its last, in every chunking of their bytes.

* `parseAll_of_takesAll`: a decoder that takes the events parses their bytes.
* `takesAll_chunks`: the chunks of a content arrive as that content.
* `takesAll_completion`: for each version, the events of a completion.
-/

namespace AI2Apps.ModelSharing

/-! ## Taking events -/

section Takes

variable {σ : Type} (floats : FloatText) (parse : σ → List ℕ → Except String (σ × ModelShareEvent))

/-- The parser goes from one state to another on the bytes of an event. -/
def Takes (s : σ) (e : OutEvent) (s' : σ) : Prop :=
  Readable e ∧ ∀ body, Utf8.encode (eventText floats e) = some body → parse s body = .ok (s', e.seen)

/-- The parser takes the events one after the other. -/
inductive TakesAll : σ → List OutEvent → σ → Prop
  | nil (s : σ) : TakesAll s [] s
  | cons {s s' s'' : σ} {e : OutEvent} {events : List OutEvent} :
      Takes floats parse s e s' → TakesAll s' events s'' → TakesAll s (e :: events) s''

variable {floats parse}

theorem TakesAll.append {s s' s'' : σ} {events more : List OutEvent}
    (h : TakesAll floats parse s events s') (h' : TakesAll floats parse s' more s'') :
    TakesAll floats parse s (events ++ more) s'' := by
  induction h with
  | nil s => exact h'
  | cons he _ ih => exact .cons he (ih h')

/-- A decoder that takes the events parses their bytes. -/
theorem parseAll_of_takesAll {events : List OutEvent} {raws : List (List ℕ)} {s s' : σ}
    (hraws : Provider.Framed floats events raws) (h : TakesAll floats parse s events s') :
    parseAll parse s (frames raws.flatten).1 = .ok (s', events.map OutEvent.seen) ∧
      (frames raws.flatten).2 = [] := by
  induction hraws generalizing s with
  | nil =>
    cases h
    exact ⟨rfl, rfl⟩
  | cons hraw _ ih =>
    cases h with
    | cons he hrest =>
      obtain ⟨hreadable, hparse⟩ := he
      obtain ⟨body, hbody, rfl⟩ := sse_eq_some.mp hraw
      obtain ⟨hall, hremainder⟩ := ih hrest
      obtain ⟨hframes, hne⟩ := frames_body hreadable hbody _
      rw [List.flatten_cons, hframes]
      refine ⟨?_, hremainder⟩
      rw [parseAll, if_neg hne, hparse body hbody]
      simp only [bind, Except.bind, hall]
      rfl

/-- In every chunking. -/
theorem feedAll_of_takesAll {events : List OutEvent} {raws chunks : List (List ℕ)} {s s' : σ}
    (hraws : Provider.Framed floats events raws) (h : TakesAll floats parse s events s')
    (hchunks : chunks.flatten = raws.flatten) :
    feedAll parse ⟨[], s⟩ chunks = .ok (⟨[], s'⟩, events.map OutEvent.seen) := by
  obtain ⟨hall, hremainder⟩ := parseAll_of_takesAll hraws h
  have hfeed := @feedAll_of_parseAll σ parse ⟨[], s⟩ rfl chunks s' (events.map OutEvent.seen)
    (by rw [List.nil_append, hchunks, hall])
  rw [hfeed, List.nil_append, hchunks, hremainder]

end Takes

/-! ## Chunks -/

open Provider

/-- A slice of a content, as a chunk event carries it. -/
def chunkAt (content : List ℕ) (offset : ℕ) : List ℕ := (content.drop offset).take chunkSize

/-- The data of the chunk event at an offset. -/
def chunkData (contractId : Str) (artifactId : String) (content : List ℕ) (sequence offset : ℕ) :
    Json.Object :=
  [(str "contractId", .str contractId), (str "sequence", .int sequence),
    (str "artifactId", .str (str artifactId)), (str "offset", .int offset),
    (str "bytes", .str (Base64Url.encode (chunkAt content offset))),
    (str "final", .bool (offset + (chunkAt content offset).length == content.length))]

theorem chunkEvents_cons (event artifactId : String) (contractId : Str) (content : List ℕ)
    (sequence offset : ℕ) (offsets : List ℕ) :
    chunkEvents event artifactId contractId content sequence (offset :: offsets) =
      (event, chunkData contractId artifactId content sequence offset) ::
        chunkEvents event artifactId contractId content (sequence + 1) offsets := rfl

variable {contractId : Str} {content : List ℕ} {sequence : ℕ}

/-- The chunk event at the offset that has arrived is accepted. -/
theorem chunkBytes_chunkData {noun artifactId : String} {maximum : ℕ} {offset : ℕ}
    (hbytes : ∀ b ∈ content, b < 256) (hmaximum : content.length ≤ maximum)
    (hoffset : offset < content.length) :
    chunkBytes noun artifactId maximum false (content.take offset)
      (chunkData contractId artifactId content sequence offset) = .ok (chunkAt content offset) := by
  have hlength : (content.take offset).length = offset := List.length_take_of_le hoffset.le
  have hchunk : (chunkAt content offset).length = min chunkSize (content.length - offset) := by
    rw [chunkAt, List.length_take, List.length_drop]
  have hdecode : Base64Url.decode (Base64Url.encode (chunkAt content offset)) =
      some (chunkAt content offset) :=
    Base64Url.decode_encode fun b hb => hbytes b (List.mem_of_mem_drop (List.mem_of_mem_take hb))
  have hidentity : Json.memberEq (chunkData contractId artifactId content sequence offset)
      (str "artifactId") (.str (str artifactId)) = true := Json.memberEq_str_iff.mpr rfl
  have hplace : Json.memberEq (chunkData contractId artifactId content sequence offset)
      (str "offset") (.int (content.take offset).length) = true := by
    rw [hlength]
    exact Json.memberEq_int_self rfl
  have hfield : (field (chunkData contractId artifactId content sequence offset) "bytes").str? =
      some (Base64Url.encode (chunkAt content offset)) := rfl
  have hlimit : (chunkAt content offset ≠ [] && (chunkAt content offset).length ≤ 262144 &&
      (content.take offset).length + (chunkAt content offset).length ≤ maximum) = true := by
    have hsize : chunkSize = 262144 := rfl
    simp only [Bool.and_eq_true, decide_eq_true_eq]
    refine ⟨⟨?_, by omega⟩, by omega⟩
    rw [← List.length_pos_iff]
    omega
  unfold chunkBytes
  rw [hidentity, hplace, hfield, Option.bind_some, hdecode]
  simp only [ensure, orError, hlimit, Bool.not_false, Bool.true_and, if_true, bind, Except.bind, pure,
    Except.pure]

theorem finalMarker_chunkData (noun : String) {artifactId : String} {offset : ℕ} :
    finalMarker noun (chunkData contractId artifactId content sequence offset) =
      .ok (offset + (chunkAt content offset).length == content.length) := rfl

/-- **The chunks of a content arrive as that content**: `st` is the state in which
some bytes have arrived, with the final marker and the next sequence number. -/
theorem takesAll_chunks {σ : Type} {floats : FloatText}
    {parse : σ → List ℕ → Except String (σ × ModelShareEvent)} {event artifactId : String}
    (hcontent : content ≠ []) (st : List ℕ → Bool → ℕ → σ)
    (hstep : ∀ offset sequence, offset < content.length →
      Takes floats parse (st (content.take offset) false sequence)
        (event, chunkData contractId artifactId content sequence offset)
        (st (content.take offset ++ chunkAt content offset)
          (offset + (chunkAt content offset).length == content.length) (sequence + 1))) :
    TakesAll floats parse (st [] false 1)
      (chunkEvents event artifactId contractId content 1 (sliceOffsets chunkSize content.length))
      (st content true (1 + (sliceOffsets chunkSize content.length).length)) := by
  have hlength := List.length_pos_iff.mpr hcontent
  generalize hn : (content.length + chunkSize - 1) / chunkSize = n
  have hsize : chunkSize = 262144 := rfl
  have hlast : (n - 1) * chunkSize < content.length ∧ content.length ≤ n * chunkSize := by
    rw [hsize] at hn ⊢
    omega
  have hchunk : ∀ offset, (chunkAt content offset).length = min chunkSize (content.length - offset) :=
    fun offset => by rw [chunkAt, List.length_take, List.length_drop]
  -- from the chunk `k` on, with `m` chunks to come
  have hrun : ∀ m k, 0 < m → k + m = n →
      TakesAll floats parse (st (content.take (k * chunkSize)) false (1 + k))
        (chunkEvents event artifactId contractId content (1 + k)
          ((List.range' k m).map (· * chunkSize)))
        (st content true (1 + k + m)) := by
    intro m
    induction m with
    | zero => exact fun k h => absurd h (lt_irrefl 0)
    | succ m ih =>
      intro k _ hk
      have hoffset : k * chunkSize < content.length :=
        lt_of_le_of_lt (Nat.mul_le_mul_right _ (by omega)) hlast.1
      have hnext : content.take (k * chunkSize) ++ chunkAt content (k * chunkSize) =
          content.take ((k + 1) * chunkSize) := by
        rw [chunkAt, ← List.take_add, Nat.succ_mul]
      have htake := hstep (k * chunkSize) (1 + k) hoffset
      rw [hnext, hchunk] at htake
      rw [List.range'_succ, List.map_cons, chunkEvents_cons]
      by_cases hm : m = 0
      · subst hm
        have hle : content.length ≤ (k + 1) * chunkSize := by
          rw [hk]
          exact hlast.2
        have hfinal : (k * chunkSize + min chunkSize (content.length - k * chunkSize) ==
            content.length) = true := by
          rw [Nat.succ_mul] at hle
          rw [beq_iff_eq]
          omega
        rw [List.take_of_length_le hle, hfinal] at htake
        exact .cons htake (.nil _)
      · have hlt : (k + 1) * chunkSize < content.length :=
          lt_of_le_of_lt (Nat.mul_le_mul_right _ (by omega)) hlast.1
        have hmore : (k * chunkSize + min chunkSize (content.length - k * chunkSize) ==
            content.length) = false := by
          rw [Nat.succ_mul] at hlt
          rw [beq_eq_false_iff_ne]
          omega
        rw [hmore] at htake
        refine .cons htake ?_
        have hrest := ih (k + 1) (Nat.pos_of_ne_zero hm) (by omega)
        rwa [show 1 + (k + 1) + m = 1 + k + (m + 1) by omega] at hrest
  have hpos : 0 < n := Nat.pos_of_ne_zero fun h => by
    rw [h, Nat.zero_mul] at hlast
    omega
  have hall := hrun n 0 hpos (Nat.zero_add n)
  rw [Nat.zero_mul, List.take_zero, ← List.range_eq_range'] at hall
  rw [sliceOffsets, hn, List.length_map, List.length_range]
  exact hall

/-! ## What the checks of a decoder come to -/

theorem bind_of_ok {ε α β : Type} {x : Except ε α} {a : α} {f : α → Except ε β} (h : x = .ok a) :
    (x >>= f) = f a := by
  rw [h]
  rfl

theorem ensure_true {check : Bool} {message : String} (h : check = true) :
    ensure check message = .ok () := by
  rw [ensure, if_pos h]

/-- The Contract and the number of an event. -/
def Identified (contractId : Str) (sequence : ℕ) (data : Json.Object) : Prop :=
  Json.lookup (str "contractId") data = some (.str contractId) ∧
    Json.lookup (str "sequence") data = some (.int sequence)

/-- The parser of the first two versions on the bytes of an event. -/
theorem parseBy_body {σ : Type} {floats : FloatText} {allowed : List Str} {message : String}
    {accept : Str → Json.Object → Except String σ} {next : σ → σ} {s₁ : σ} {e : OutEvent} {body : List ℕ}
    (hreadable : Readable e) (hallowed : str e.1 ∈ allowed) (hid : Identified contractId sequence e.2)
    (haccept : accept (str e.1) e.2 = .ok s₁) (hbody : Utf8.encode (eventText floats e) = some body) :
    parseBy floats contractId allowed message sequence accept next body = .ok (next s₁, e.seen) := by
  rw [parseBy, eventLines_body hreadable hbody]
  simp only [bind, Except.bind, ensure_true (decide_eq_true hallowed),
    eventData_dumps hreadable hid.1 hid.2, haccept]
  rfl

theorem digestOf_of_lookup {data : Json.Object} {digest : Str}
    (h : Json.lookup (str "resultDigest") data = some (.str digest))
    (hhex : isSha256Hex digest = true) : digestOf data = .ok digest := by
  have hfield : field data "resultDigest" = .str digest := by rw [field, h]; rfl
  rw [digestOf, hfield]
  simp only [Json.str?, Option.filter_some, hhex, if_true, orError]

/-- A manifest is parsed from the event that releases it. -/
theorem orError_parse {codec : ManifestCodec} {kind : ResultKind} (result : ResultManifest codec kind)
    {message : String} :
    orError (ResultManifest.parse codec kind (.obj result.value)) message = .ok result := by
  rw [ResultManifest.parse_eq_some_iff.mpr rfl]
  rfl

/-- One more member, under a new key. -/
theorem plain_obj_cons {k : Str} {v : Json} {o : Json.Object} (hk : decide (k ∉ Json.keys o) = true)
    (hv : v.plain = true) (ho : (Json.obj o).plain = true) : (Json.obj ((k, v) :: o)).plain = true := by
  rw [Json.plain] at ho ⊢
  rw [Json.plainMembers, hk, hv, ho]
  rfl

theorem plain_payload {sequence : ℤ} {manifest : Json.Object} (h : (Json.obj manifest).plain = true) :
    (Json.obj [(str "contractId", .str contractId), (str "sequence", .int sequence),
      (str "resultManifest", .obj manifest)]).plain = true :=
  plain_obj_cons rfl rfl (plain_obj_cons rfl rfl (plain_obj_cons rfl h rfl))

theorem plain_committed {digest : Str} {sequence : ℤ} {usage : Json.Object}
    (h : (Json.obj usage).plain = true) :
    (Json.obj [(str "contractId", .str contractId), (str "sequence", .int sequence),
      (str "resultDigest", .str digest), (str "actualUsage", .obj usage)]).plain = true :=
  plain_obj_cons rfl rfl (plain_obj_cons rfl rfl (plain_obj_cons rfl rfl (plain_obj_cons rfl h rfl)))

/-- What the buyer binds a request to. -/
def Provider.Env.buyer (env : Env) (request : InferenceRequest) : Binding :=
  ⟨env.codec, env.floats, request.contractId, request.requestDigest⟩

/-! ## Version 1 -/

namespace SseEventDecoder

variable {b : Binding}

theorem takes_of_accept {s s₁ : State b.codec} {event : String} {data : Json.Object} (phase : Phase)
    (hphase : s.phase = phase) (hline : 10 ∉ str event)
    (hallowed : str event ∈ phase.allowed (str "output.delta"))
    (hplain : (Json.obj data).plain = true) (hid : Identified b.contractId s.nextSequence data)
    (haccept : accept b s (str event) data = .ok s₁) :
    Takes b.floats (parse b) s (event, data) { s₁ with nextSequence := s₁.nextSequence + 1 } := by
  subst hphase
  refine ⟨⟨hline, hplain⟩, fun body hbody => ?_⟩
  rw [parse_eq, parseBy_body ⟨hline, hplain⟩ hallowed hid haccept hbody]

/-- The deltas are taken in order. -/
theorem takesAll_deltas (texts : List Str) (sequence : ℕ) :
    TakesAll b.floats (parse b) ⟨sequence, .output, none, none⟩
      (deltaEvents b.contractId sequence texts) ⟨sequence + texts.length, .output, none, none⟩ := by
  induction texts generalizing sequence with
  | nil => exact .nil _
  | cons text texts ih =>
    have haccept : accept b ⟨sequence, .output, none, none⟩ (str "output.delta")
        [(str "contractId", .str b.contractId), (str "sequence", .int sequence),
          (str "text", .str text)] = .ok ⟨sequence, .output, none, none⟩ := by
      rw [accept, if_neg (by decide), if_pos rfl]
      rfl
    rw [deltaEvents]
    refine .cons (takes_of_accept .output rfl (by decide) (by decide) rfl ⟨rfl, rfl⟩ haccept) ?_
    have hrest := ih (sequence + 1)
    rwa [show sequence + 1 + texts.length = sequence + (text :: texts).length by
      rw [List.length_cons]; omega] at hrest

/-- The events of a completed text stream take the decoder to its end. -/
theorem takesAll_completion {request : InferenceRequest} {texts : List Str} {usage : InferenceUsage}
    {text finishReason : Str} {nonce : List ℕ} {result : ResultManifest b.codec computeResult}
    (hkind : request.kind = .text) (hcontract : request.contractId = b.contractId)
    (hrequest : request.requestDigest = b.requestDigest)
    (hhex : ∀ bytes, isSha256Hex (b.codec.sha256 bytes) = true)
    (husage : 0 ≤ usage.inputTokens ∧ 0 ≤ usage.outputTokens)
    (hresult : ComputeResultManifest.create b.codec b.contractId b.requestDigest text finishReason
      nonce = some result) :
    TakesAll b.floats (parse b) (init b.codec).state
      ((textCompletionOf request texts usage result).events request)
      ⟨1 + texts.length + 3, .done, some result.digest, some result⟩ := by
  have hvalue := Json.obj.inj (ResultManifest.parse_eq_some_iff.mp hresult)
  have hplain : (Json.obj result.value).plain = true := by rw [← hvalue]; rfl
  unfold textCompletionOf Completion.events
  rw [length_deltaEvents, acceptedData, hkind]
  dsimp only [accepted]
  rw [hcontract, hrequest]
  refine .cons (takes_of_accept .accepted rfl (by decide) (by decide) rfl ⟨rfl, rfl⟩
    (show _ = Except.ok ⟨0, .output, none, none⟩ from ?_)) ((takesAll_deltas texts 1).append ?_)
  · rw [accept, if_pos rfl]
    refine (bind_of_ok (ensure_true ?_)).trans rfl
    rw [Bool.and_eq_true]
    exact ⟨Json.memberEq_int_self rfl, Json.memberEq_str_iff.mpr rfl⟩
  refine .cons (takes_of_accept .output rfl (by decide) (by decide) rfl ⟨rfl, rfl⟩
    (show _ = Except.ok ⟨1 + texts.length, .committed, some result.digest, none⟩ from ?_)) ?_
  · rw [accept, if_neg (by decide), if_neg (by decide), if_pos rfl]
    refine (bind_of_ok (digestOf_of_lookup rfl (hhex _))).trans ?_
    refine (bind_of_ok (ensure_true ?_)).trans rfl
    show (decide (0 ≤ usage.inputTokens) && decide (0 ≤ usage.outputTokens)) = true
    rw [Bool.and_eq_true, decide_eq_true_eq, decide_eq_true_eq]
    exact husage
  refine .cons (takes_of_accept .committed rfl (by decide) (by decide) (plain_payload hplain)
    ⟨rfl, rfl⟩ (show _ = Except.ok ⟨1 + texts.length + 1, .payload, some result.digest, some result⟩
      from ?_)) ?_
  · rw [accept, if_neg (by decide), if_neg (by decide), if_neg (by decide), if_pos rfl]
    refine (bind_of_ok (orError_parse result)).trans ?_
    refine (bind_of_ok (ensure_true ?_)).trans rfl
    rw [Bool.and_eq_true, Bool.and_eq_true, Json.pyEq_str_iff, Json.pyEq_str_iff,
      ResultManifest.member, ResultManifest.member, ← hvalue]
    exact ⟨⟨rfl, rfl⟩, beq_self_eq_true _⟩
  refine .cons (takes_of_accept .payload rfl (by decide) (by decide) rfl ⟨rfl, rfl⟩
    (show _ = Except.ok ⟨1 + texts.length + 2, .done, some result.digest, some result⟩ from ?_))
    (.nil _)
  rw [accept, if_neg (by decide), if_neg (by decide), if_neg (by decide), if_neg (by decide)]
  rfl

end SseEventDecoder

/-! ## Version 2 -/

namespace AudioTtsSseEventDecoder

variable {b : Binding}

theorem takes_of_accept {s s₁ : State b.codec} {event : String} {data : Json.Object} (phase : Phase)
    (hphase : s.phase = phase) (hline : 10 ∉ str event)
    (hallowed : str event ∈ phase.allowed (str "output.audio.chunk"))
    (hplain : (Json.obj data).plain = true) (hid : Identified b.contractId s.nextSequence data)
    (haccept : accept b s (str event) data = .ok s₁) :
    Takes b.floats (parse b) s (event, data) { s₁ with nextSequence := s₁.nextSequence + 1 } := by
  subst hphase
  refine ⟨⟨hline, hplain⟩, fun body hbody => ?_⟩
  rw [parse_eq, parseBy_body ⟨hline, hplain⟩ hallowed hid haccept hbody]

/-- The chunks of the audio are taken in order. -/
theorem takesAll_audio {audio : List ℕ} (hne : audio ≠ []) (hbytes : ∀ x ∈ audio, x < 256)
    (hlength : audio.length ≤ 67108864) :
    TakesAll b.floats (parse b) ⟨[], 1, .output, false, none, none, none⟩
      (chunkEvents "output.audio.chunk" "audio-0" b.contractId audio 1
        (sliceOffsets chunkSize audio.length))
      ⟨audio, 1 + (sliceOffsets chunkSize audio.length).length, .output, true, none, none, none⟩ := by
  refine takesAll_chunks hne
    (fun content final sequence =>
      (⟨content, sequence, .output, final, none, none, none⟩ : State b.codec)) ?_
  intro offset sequence hoffset
  refine takes_of_accept .output rfl (by decide) (by decide) rfl ⟨rfl, rfl⟩
    (show _ = Except.ok ⟨audio.take offset ++ chunkAt audio offset, sequence, .output,
      offset + (chunkAt audio offset).length == audio.length, none, none, none⟩ from ?_)
  rw [accept, if_neg (by decide), if_pos rfl]
  refine (bind_of_ok (chunkBytes_chunkData hbytes hlength hoffset)).trans ?_
  exact (bind_of_ok (finalMarker_chunkData "Audio chunk")).trans rfl

/-- The events of a completed speech stream take the decoder to its end. -/
theorem takesAll_completion {request : InferenceRequest} {audio : List ℕ} {inputUnits outputUnits : ℤ}
    {nonce : List ℕ} {result : ResultManifest b.codec audioTtsResult}
    (hkind : request.kind = .audioTts) (hcontract : request.contractId = b.contractId)
    (hrequest : request.requestDigest = b.requestDigest)
    (hhex : ∀ bytes, isSha256Hex (b.codec.sha256 bytes) = true)
    (hne : audio ≠ []) (hbytes : ∀ x ∈ audio, x < 256) (hlength : audio.length ≤ 67108864)
    (hunits : 1 ≤ inputUnits ∧ 1 ≤ outputUnits)
    (hresult : AudioTtsResultManifest.create b.codec b.contractId b.requestDigest audio.length
      (b.codec.sha256 audio) inputUnits outputUnits nonce = some result) :
    TakesAll b.floats (parse b) (init b.codec).state
      ((audioCompletionOf request audio inputUnits outputUnits result).events request)
      ⟨audio, 1 + (sliceOffsets chunkSize audio.length).length + 3, .done, true, some result.digest,
        some (inputUnits, outputUnits), some result⟩ := by
  have hvalue := Json.obj.inj (ResultManifest.parse_eq_some_iff.mp hresult)
  have hplain : (Json.obj result.value).plain = true := by rw [← hvalue]; rfl
  unfold audioCompletionOf Completion.events
  rw [length_chunkEvents, acceptedData, hkind]
  dsimp only [accepted]
  rw [hcontract, hrequest]
  generalize hsequence : 1 + (sliceOffsets chunkSize audio.length).length = sequence
  have haudio := @takesAll_audio b audio hne hbytes hlength
  rw [hsequence] at haudio
  refine .cons (takes_of_accept .accepted rfl (by decide) (by decide) rfl ⟨rfl, rfl⟩
    (show _ = Except.ok ⟨[], 0, .output, false, none, none, none⟩ from ?_)) (haudio.append ?_)
  · rw [accept, if_pos rfl]
    refine (bind_of_ok (ensure_true ?_)).trans rfl
    rw [Bool.and_eq_true]
    exact ⟨Json.memberEq_int_self rfl, Json.memberEq_str_iff.mpr rfl⟩
  refine .cons (takes_of_accept .output rfl (by decide) (by decide) rfl ⟨rfl, rfl⟩
    (show _ = Except.ok ⟨audio, sequence, .committed, true, some result.digest,
      some (inputUnits, outputUnits), none⟩ from ?_)) ?_
  · rw [accept, if_neg (by decide), if_neg (by decide), if_pos rfl]
    refine (bind_of_ok (ensure_true rfl)).trans ?_
    refine (bind_of_ok (digestOf_of_lookup rfl (hhex _))).trans ?_
    refine (bind_of_ok (ensure_true ?_)).trans ?_
    · rw [Bool.and_eq_true]
      exact ⟨Json.memberEq_str_iff.mpr rfl, Json.memberEq_str_iff.mpr rfl⟩
    refine (bind_of_ok (ensure_true ?_)).trans rfl
    rw [Bool.and_eq_true, decide_eq_true_eq, decide_eq_true_eq]
    exact hunits
  refine .cons (takes_of_accept .committed rfl (by decide) (by decide) (plain_payload hplain)
    ⟨rfl, rfl⟩ (show _ = Except.ok ⟨audio, sequence + 1, .payload, true, some result.digest,
      some (inputUnits, outputUnits), some result⟩ from ?_)) ?_
  · rw [accept, if_neg (by decide), if_neg (by decide), if_neg (by decide), if_pos rfl]
    refine (bind_of_ok (orError_parse result)).trans ?_
    refine (bind_of_ok (ensure_true ?_)).trans rfl
    simp only [manifestMatches, Bool.and_eq_true, Json.pyEq_str_iff, ResultManifest.member,
      ← hvalue]
    refine ⟨⟨⟨⟨⟨rfl, rfl⟩, beq_self_eq_true _⟩, ?_⟩, ?_⟩, rfl⟩
    · show (Json.pyEq (.int inputUnits) (.int inputUnits) &&
        Json.pyEq (.int outputUnits) (.int outputUnits)) = true
      rw [Json.pyEq_self rfl, Json.pyEq_self rfl]
      rfl
    · exact Json.pyEq_self rfl
  refine .cons (takes_of_accept .payload rfl (by decide) (by decide) rfl ⟨rfl, rfl⟩
    (show _ = Except.ok ⟨audio, sequence + 2, .done, true, some result.digest,
      some (inputUnits, outputUnits), some result⟩ from ?_)) (.nil _)
  rw [accept, if_neg (by decide), if_neg (by decide), if_neg (by decide), if_neg (by decide)]
  rfl

end AudioTtsSseEventDecoder

/-! ## Version 3 -/

theorem plain_of_isInteger {minimum : ℤ} {v : Json} (h : isInteger minimum v = true) :
    v.plain = true := by
  cases v with
  | int i => rfl
  | _ => exact absurd h (by simp [isInteger, Json.int?])

theorem plain_of_isDecimal {positive : Bool} {v : Json} (h : isDecimal positive v = true) :
    v.plain = true := by
  cases v with
  | str s => rfl
  | _ => exact absurd h (by simp [isDecimal, Json.str?])

/-- A checked member is plain when its check makes it so. -/
theorem plain_of_checked {item : Json.Object} {name : String} {check : Json → Bool} {v : Json}
    (hcheck : ∀ v, check v = true → v.plain = true) (h : checked item name check = true)
    (hv : Json.lookup (str name) item = some v) : v.plain = true := by
  rw [checked, hv] at h
  exact hcheck v h

theorem keys_of_keysEq {o : Json.Object} {names : List Str} (h : Json.keysEq o names = true) :
    ∀ k ∈ Json.keys o, k ∈ names := by
  rw [Json.keysEq, Bool.and_eq_true] at h
  exact fun k hk => of_decide_eq_true (List.all_eq_true.mp h.1 k hk)

/-- A valid usage is an object; it is plain when no key is twice in it. -/
theorem validateActualUsage_eq_some {calculatorType : Str} {v : Json} {usage : Json.Object}
    (h : validateActualUsage calculatorType v = some usage) :
    v = .obj usage ∧ ((Json.keys usage).Nodup → (Json.obj usage).plain = true) := by
  cases v with
  | obj item =>
    unfold validateActualUsage at h
    dsimp only at h
    split_ifs at h with h1 hc h2 hc h3 hc
    · cases h
      refine ⟨rfl, fun hnodup => Json.plain_obj_of_lookup hnodup fun k hk v hv => ?_⟩
      rw [Bool.and_eq_true] at hc
      have hmem := keys_of_keysEq hc.1 k hk
      simp only [List.map_cons, List.map_nil, List.mem_singleton] at hmem
      subst hmem
      exact plain_of_checked (fun _ => plain_of_isInteger) hc.2 hv
    · cases h
      refine ⟨rfl, fun hnodup => Json.plain_obj_of_lookup hnodup fun k hk v hv => ?_⟩
      rw [Bool.and_eq_true, Bool.and_eq_true] at hc
      have hmem := keys_of_keysEq hc.1.1 k hk
      simp only [List.map_cons, List.map_nil, List.mem_cons, List.not_mem_nil, or_false] at hmem
      rcases hmem with rfl | rfl
      · exact plain_of_checked (fun _ => plain_of_isDecimal) hc.1.2 hv
      · exact plain_of_checked (fun _ => plain_of_isInteger) hc.2 hv
    · cases h
      refine ⟨rfl, fun hnodup => Json.plain_obj_of_lookup hnodup fun k hk v hv => ?_⟩
      rw [Bool.and_eq_true, Bool.and_eq_true, Bool.and_eq_true] at hc
      have hmem := keys_of_keysEq hc.1.1.1 k hk
      simp only [List.map_cons, List.map_nil, List.mem_cons, List.not_mem_nil, or_false] at hmem
      rcases hmem with rfl | rfl | rfl
      · exact plain_of_checked (fun _ => plain_of_isDecimal) hc.1.1.2 hv
      · exact plain_of_checked (fun _ => plain_of_isInteger) hc.2 hv
      · exact plain_of_checked (fun _ => plain_of_isDecimal) hc.1.2 hv
  | _ => exact absurd h (by simp [validateActualUsage])

namespace MultimodalArtifactSseEventDecoder

variable {b : Binding} {calculatorType : Str} {maximumBytes : ℕ}

theorem takes_of_accept {s s₁ : State b.codec} {event : String} {data : Json.Object} (phase : Phase)
    (hphase : s.phase = phase) (hline : 10 ∉ str event)
    (hallowed : str event ∈ phase.allowed (str "output.artifact.chunk"))
    (hplain : (Json.obj data).plain = true) (hid : Identified b.contractId s.nextSequence data)
    (haccept : accept b calculatorType maximumBytes s (str event) data = .ok s₁) :
    Takes b.floats (parse b calculatorType maximumBytes) s (event, data)
      { s₁ with nextSequence := s₁.nextSequence + 1 } := by
  subst hphase
  refine ⟨⟨hline, hplain⟩, fun body hbody => ?_⟩
  have hreadable : Readable (event, data) := ⟨hline, hplain⟩
  have hdata : (str "data: " ++ JsonText.dumps b.floats (.obj data)).drop 6 =
      JsonText.dumps b.floats (.obj data) := rfl
  have hevent : (str "event: " ++ str event).drop 7 = str event := rfl
  have hframing : ([] : List Str).isEmpty && (str "event: ").isPrefixOf (str "event: " ++ str event) &&
      (str "data: ").isPrefixOf (str "data: " ++ JsonText.dumps b.floats (.obj data)) = true := by
    rw [List.isPrefixOf_iff_prefix.mpr (List.prefix_append _ _),
      List.isPrefixOf_iff_prefix.mpr (List.prefix_append _ _)]
    rfl
  have hidentity : (decide (str event ∈ s.phase.allowed (str "output.artifact.chunk")) &&
      Json.memberEq data (str "contractId") (.str b.contractId) &&
      Json.memberEq data (str "sequence") (.int s.nextSequence)) = true := by
    rw [decide_eq_true hallowed, Json.memberEq_str_iff.mpr hid.1, Json.memberEq_int_self hid.2]
    rfl
  rw [parse, Utf8.decode_encode hbody]
  refine (bind_of_ok rfl).trans ?_
  rw [splitOn_eventText hreadable]
  dsimp only
  rw [hdata, JsonText.loads_dumps b.floats hplain]
  refine (bind_of_ok rfl).trans ?_
  refine (bind_of_ok (ensure_true hframing)).trans ?_
  refine (bind_of_ok (ensure_true hidentity)).trans ?_
  exact (bind_of_ok haccept).trans rfl

/-- The chunks of the artifact are taken in order. -/
theorem takesAll_artifact {artifact : List ℕ} (hne : artifact ≠ []) (hbytes : ∀ x ∈ artifact, x < 256)
    (hlength : artifact.length ≤ maximumBytes) :
    TakesAll b.floats (parse b calculatorType maximumBytes)
      ⟨[], 1, .output, false, none, none, none⟩
      (chunkEvents "output.artifact.chunk" "artifact-0" b.contractId artifact 1
        (sliceOffsets chunkSize artifact.length))
      ⟨artifact, 1 + (sliceOffsets chunkSize artifact.length).length, .output, true, none, none,
        none⟩ := by
  refine takesAll_chunks hne (fun content final sequence =>
    (⟨content, sequence, .output, final, none, none, none⟩ : State b.codec)) ?_
  intro offset sequence hoffset
  refine takes_of_accept .output rfl (by decide) (by decide) rfl ⟨rfl, rfl⟩
    (show _ = Except.ok ⟨artifact.take offset ++ chunkAt artifact offset, sequence, .output,
      offset + (chunkAt artifact offset).length == artifact.length, none, none, none⟩ from ?_)
  rw [accept, if_neg (by decide), if_pos rfl]
  refine (bind_of_ok (chunkBytes_chunkData hbytes hlength hoffset)).trans ?_
  exact (bind_of_ok (finalMarker_chunkData "Artifact")).trans rfl

/-- The events of a completed multimodal stream take the decoder to its end. -/
theorem takesAll_completion {request : InferenceRequest} {artifact : List ℕ} {contentType : Str}
    {actualUsage : Json.Object} {result : ResultManifest b.codec multimodalResult}
    (hkind : request.kind = .multimodal) (hcontract : request.contractId = b.contractId)
    (hrequest : request.requestDigest = b.requestDigest)
    (hcalculator : (calculatorOf request).getD [] = calculatorType)
    (hhex : ∀ bytes, isSha256Hex (b.codec.sha256 bytes) = true)
    (hne : artifact ≠ []) (hbytes : ∀ x ∈ artifact, x < 256)
    (hlength : artifact.length ≤ maximumBytes)
    (husage : validateActualUsage calculatorType (.obj actualUsage) = some actualUsage)
    (hplainUsage : (Json.obj actualUsage).plain = true)
    (hresult : MultimodalResultManifest.create b.codec b.contractId calculatorType actualUsage
      [[(str "sha256", .str (b.codec.sha256 artifact)), (str "contentType", .str contentType),
        (str "byteSize", .str (JsonText.natText artifact.length))]] = some result) :
    TakesAll b.floats (parse b calculatorType maximumBytes) (init b.codec).state
      ((multimodalCompletionOf request actualUsage artifact result).events request)
      ⟨artifact, 1 + (sliceOffsets chunkSize artifact.length).length + 3, .done, true,
        some result.digest, some actualUsage, some result⟩ := by
  have hvalue := Json.obj.inj (ResultManifest.parse_eq_some_iff.mp hresult)
  have hplain : (Json.obj result.value).plain = true := by
    rw [← hvalue]
    exact plain_obj_cons rfl rfl (plain_obj_cons rfl rfl (plain_obj_cons rfl rfl
      (plain_obj_cons rfl hplainUsage (plain_obj_cons rfl rfl rfl))))
  unfold multimodalCompletionOf Completion.events
  rw [length_chunkEvents, acceptedData, hkind]
  dsimp only [accepted]
  rw [hcontract, hrequest, hcalculator]
  generalize hsequence : 1 + (sliceOffsets chunkSize artifact.length).length = sequence
  have hartifact := @takesAll_artifact b calculatorType maximumBytes artifact hne hbytes hlength
  rw [hsequence] at hartifact
  refine .cons (takes_of_accept .accepted rfl (by decide) (by decide) rfl ⟨rfl, rfl⟩
    (show _ = Except.ok ⟨[], 0, .output, false, none, none, none⟩ from ?_)) (hartifact.append ?_)
  · rw [accept, if_pos rfl]
    refine (bind_of_ok (ensure_true ?_)).trans rfl
    rw [Bool.and_eq_true, Bool.and_eq_true]
    exact ⟨⟨Json.memberEq_int_self rfl, Json.memberEq_str_iff.mpr rfl⟩, Json.memberEq_str_iff.mpr rfl⟩
  refine .cons (takes_of_accept .output rfl (by decide) (by decide) (plain_committed hplainUsage)
    ⟨rfl, rfl⟩ (show _ = Except.ok ⟨artifact, sequence, .committed, true, some result.digest,
      some actualUsage, none⟩ from ?_)) ?_
  · rw [accept, if_neg (by decide), if_neg (by decide), if_pos rfl]
    refine (bind_of_ok (ensure_true rfl)).trans ?_
    refine (bind_of_ok (digestOf_of_lookup rfl (hhex _))).trans ?_
    refine (bind_of_ok (show orError (validateActualUsage calculatorType (.obj actualUsage)) _ =
      .ok actualUsage from ?_)).trans rfl
    rw [husage]
    rfl
  refine .cons (takes_of_accept .committed rfl (by decide) (by decide) (plain_payload hplain)
    ⟨rfl, rfl⟩ (show _ = Except.ok ⟨artifact, sequence + 1, .payload, true, some result.digest,
      some actualUsage, some result⟩ from ?_)) ?_
  · rw [accept, if_neg (by decide), if_neg (by decide), if_neg (by decide), if_pos rfl]
    refine (bind_of_ok (orError_parse result)).trans ?_
    refine (bind_of_ok (ensure_true ?_)).trans rfl
    simp only [manifestMatches, Bool.and_eq_true, Json.pyEq_str_iff, ResultManifest.member,
      ← hvalue]
    exact ⟨⟨⟨⟨⟨rfl, rfl⟩, Json.pyEq_self hplainUsage⟩, beq_self_eq_true _⟩, rfl⟩, rfl⟩
  refine .cons (takes_of_accept .payload rfl (by decide) (by decide) rfl ⟨rfl, rfl⟩
    (show _ = Except.ok ⟨artifact, sequence + 2, .done, true, some result.digest,
      some actualUsage, some result⟩ from ?_)) (.nil _)
  rw [accept, if_neg (by decide), if_neg (by decide), if_neg (by decide), if_neg (by decide)]
  rfl

end MultimodalArtifactSseEventDecoder

end AI2Apps.ModelSharing
