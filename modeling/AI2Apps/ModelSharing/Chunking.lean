import AI2Apps.ModelSharing.Framing

/-!
# Chunking does not matter

The three decoders cut the bytes they have at blank lines and parse what lies between, so
a stream is read as the bytes it is made of, wherever they are cut: an error is raised
in both of two divisions or in neither, and where none is raised the decoder, its events
and the outcome of its end are the same.

* `parseAll_append_eq`, `feedAll_eq`: a reading is one of all the bytes, errors included.
* `SameReading`, `decoders_chunking`: the three decoders.
-/

namespace AI2Apps.ModelSharing

section Feed

variable {σ : Type} {parse : σ → List ℕ → Except String (σ × ModelShareEvent)}

/-- What follows an error is not parsed; what follows events is parsed after them. -/
theorem parseAll_append_eq (s : σ) (xs ys : List (List ℕ)) :
    parseAll parse s (xs ++ ys) = (parseAll parse s xs).bind fun r =>
      (parseAll parse r.1 ys).map fun r' => (r'.1, r.2 ++ r'.2) := by
  induction xs generalizing s with
  | nil =>
    show parseAll parse s ys = (parseAll parse s ys).map fun r' => (r'.1, [] ++ r'.2)
    cases parseAll parse s ys <;> rfl
  | cons raw xs ih =>
    rw [List.cons_append, parseAll, parseAll]
    split_ifs with hraw
    · exact ih s
    · cases parse s raw with
      | error e => rfl
      | ok p =>
        show ((parseAll parse p.1 (xs ++ ys)).bind fun r => .ok (r.1, p.2 :: r.2)) =
          ((parseAll parse p.1 xs).bind fun r => .ok (r.1, p.2 :: r.2)).bind _
        rw [ih p.1]
        cases parseAll parse p.1 xs with
        | error e => rfl
        | ok r =>
          show ((parseAll parse r.1 ys).map _).bind _ = (parseAll parse r.1 ys).map _
          cases parseAll parse r.1 ys <;> rfl

/-- **A reading is one of all the bytes.** -/
theorem feedAll_eq {d : Decoder σ} (hd : frames d.buffer = ([], d.buffer)) (chunks : List (List ℕ)) :
    feedAll parse d chunks = (parseAll parse d.state (frames (d.buffer ++ chunks.flatten)).1).map
      fun r => (⟨(frames (d.buffer ++ chunks.flatten)).2, r.1⟩, r.2) := by
  induction chunks generalizing d with
  | nil =>
    rw [List.flatten_nil, List.append_nil, hd]
    rfl
  | cons chunk chunks ih =>
    rw [List.flatten_cons, ← List.append_assoc, frames_append, parseAll_append_eq]
    show ((parseAll parse d.state (frames (d.buffer ++ chunk)).1).bind _).bind _ = _
    cases parseAll parse d.state (frames (d.buffer ++ chunk)).1 with
    | error e => rfl
    | ok r =>
      show (feedAll parse ⟨(frames (d.buffer ++ chunk)).2, r.1⟩ chunks).bind _ = _
      rw [ih (frames_remainder _)]
      show ((parseAll parse r.1 _).map _).bind _ = ((parseAll parse r.1 _).map _).map _
      cases parseAll parse r.1 (frames ((frames (d.buffer ++ chunk)).2 ++ chunks.flatten)).1 <;> rfl

/-- Two divisions of a stream are read alike: an error in both or in neither, and without
one the same events, the same decoder with all it has gathered, and the same end. -/
def SameReading (parse : σ → List ℕ → Except String (σ × ModelShareEvent))
    (finish : Decoder σ → Except String Unit) (d : Decoder σ) (chunks chunks' : List (List ℕ)) : Prop :=
  ((∃ e, feedAll parse d chunks = .error e) ↔ ∃ e, feedAll parse d chunks' = .error e) ∧
    ∀ r r', feedAll parse d chunks = .ok r → feedAll parse d chunks' = .ok r' →
      r.2 = r'.2 ∧ r.1 = r'.1 ∧ finish r.1 = finish r'.1

theorem sameReading (finish : Decoder σ → Except String Unit) {d : Decoder σ}
    (hd : frames d.buffer = ([], d.buffer)) {chunks chunks' : List (List ℕ)}
    (h : chunks.flatten = chunks'.flatten) : SameReading parse finish d chunks chunks' := by
  have hsame : feedAll parse d chunks = feedAll parse d chunks' := by
    rw [feedAll_eq hd, feedAll_eq hd, h]
  refine ⟨by rw [hsame], fun r r' hr hr' => ?_⟩
  obtain rfl := Except.ok.inj (hr.symm.trans (hsame.trans hr'))
  exact ⟨rfl, rfl, rfl⟩

end Feed

/-- **The three decoders read a stream alike wherever it is cut.** -/
theorem decoders_chunking (b : Binding) (calculatorType : Str) (maximumBytes : ℕ)
    (chunks chunks' : List (List ℕ)) (h : chunks.flatten = chunks'.flatten) :
    SameReading (SseEventDecoder.parse b) (SseEventDecoder.finish b)
        (SseEventDecoder.init b.codec) chunks chunks' ∧
      SameReading (AudioTtsSseEventDecoder.parse b) (AudioTtsSseEventDecoder.finish b)
        (AudioTtsSseEventDecoder.init b.codec) chunks chunks' ∧
      SameReading (MultimodalArtifactSseEventDecoder.parse b calculatorType maximumBytes)
        (MultimodalArtifactSseEventDecoder.finish b)
        (MultimodalArtifactSseEventDecoder.init b.codec) chunks chunks' :=
  ⟨sameReading _ rfl h, sameReading _ rfl h, sameReading _ rfl h⟩

/-- A Contract for a text. -/
def textBinding : Binding :=
  ⟨⟨fun _ => none, fun _ => [], fun _ => false⟩, ⟨fun _ => [], fun _ => .nan⟩, str "c", str "r"⟩

/-- The first event of a stream, and the beginning of the second. -/
def acceptedText : List ℕ :=
  str "event: job.accepted\n" ++
    str "data: \x7b\"contractId\":\"c\",\"protocolVersion\":1,\"requestDigest\":\"r\",\"sequence\":0\x7d\n\n" ++
    str "event: "

/-- The stream is cut inside of the event, and between the two line breaks after it.  The decoder of
texts reads the event, the other two raise. -/
theorem decoders_chunking_accepted :
    let chunks := [acceptedText.take 30, (acceptedText.drop 30).take 68, acceptedText.drop 98]
    (SameReading (SseEventDecoder.parse textBinding) (SseEventDecoder.finish textBinding)
        (SseEventDecoder.init textBinding.codec) chunks [acceptedText] ∧
      SameReading (AudioTtsSseEventDecoder.parse textBinding) (AudioTtsSseEventDecoder.finish textBinding)
        (AudioTtsSseEventDecoder.init textBinding.codec) chunks [acceptedText] ∧
      SameReading (MultimodalArtifactSseEventDecoder.parse textBinding (str "image_v1") 1024)
        (MultimodalArtifactSseEventDecoder.finish textBinding)
        (MultimodalArtifactSseEventDecoder.init textBinding.codec) chunks [acceptedText]) ∧
      (feedAll (SseEventDecoder.parse textBinding) (SseEventDecoder.init textBinding.codec)
        chunks).toOption.map (fun r => (r.2.length, r.1.state.phase)) = some (1, .output) :=
  ⟨decoders_chunking textBinding (str "image_v1") 1024 _ [acceptedText] (by decide +kernel),
    by decide +kernel⟩

end AI2Apps.ModelSharing
