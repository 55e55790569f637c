import AI2Apps.ModelSharing.EventOrder

/-!
# The steps of the three decoders

Each decoder accepts events as `Accepts` says, and from the release of the
manifest on keeps what the manifest was checked against.

* `parseBy`: the parser that the first two versions share.
* `accept_spec`, `parse_spec`: every parsed event is accepted in the common sense, and a released
  manifest stays bound to what it was checked against.
-/

namespace AI2Apps.ModelSharing

/-- The binding of a stream of one version. -/
def Binding.stream (b : Binding) (version : ℤ) (outputEvent : String) : StreamBinding :=
  ⟨version, str outputEvent, b.contractId, b.requestDigest⟩

/-- An output event that is none of the four that move the phase. -/
theorem Binding.distinct (b : Binding) (version : ℤ) {event : String}
    (h : str event ∉ ["job.accepted", "result.committed", "result.payload", "job.completed"].map str) :
    (b.stream version event).Distinct := by
  simp only [List.map_cons, List.map_nil, List.mem_cons, List.not_mem_nil, or_false, not_or] at h
  exact ⟨h.1, h.2.1, h.2.2.1, h.2.2.2⟩

/-- Where no other event is allowed, the last one is the completion. -/
theorem allowed_rest {p : Phase} {outputEvent event : Str} (h : event ∈ p.allowed outputEvent)
    (h1 : event ≠ str "job.accepted") (h2 : event ≠ outputEvent)
    (h3 : event ≠ str "result.committed") (h4 : event ≠ str "result.payload") :
    event = str "job.completed" := by
  cases p <;> simp_all [Phase.allowed]

/-- The first event is accepted in the first phase only. -/
theorem phase_of_accepted {p : Phase} {o : Str} (ho : o ≠ str "job.accepted")
    (h : str "job.accepted" ∈ p.allowed o) : p = .accepted := by
  cases p with
  | accepted => rfl
  | output =>
    rw [Phase.allowed, List.mem_cons, List.mem_singleton] at h
    exact absurd h (by rintro (h | h); exacts [ho h.symm, absurd h (by decide)])
  | committed => exact absurd (List.mem_singleton.mp h) (by decide)
  | payload => exact absurd (List.mem_singleton.mp h) (by decide)
  | done => exact absurd h List.not_mem_nil

/-- Output and its commitment are accepted in the output phase only. -/
theorem phase_of_output {b : StreamBinding} (hb : b.Distinct) {p : Phase} {event : Str}
    (he : event = b.outputEvent ∨ event = str "result.committed")
    (h : event ∈ p.allowed b.outputEvent) : p = .output := by
  have hne : event ≠ str "job.accepted" ∧ event ≠ str "result.payload" ∧
      event ≠ str "job.completed" := by
    rcases he with rfl | rfl
    · exact ⟨hb.accepted, hb.payload, hb.completed⟩
    · decide
  cases p <;> simp_all [Phase.allowed]

/-- No manifest is released before its commitment. -/
theorem Phase.unreleased {p : Phase} (h : p = .accepted ∨ p = .output) : ¬(p = .payload ∨ p = .done) := by
  rcases h with rfl | rfl <;> simp

/-! ### The parser of the first two versions -/

section Parser

variable {σ : Type}

/-- How the first two versions parse an event: `accept` is the effect of the event, `next` counts it. -/
def parseBy (floats : FloatText) (contractId : Str) (allowed : List Str) (message : String) (sequence : ℕ)
    (accept : Str → Json.Object → Except String σ) (next : σ → σ) (raw : List ℕ) :
    Except String (σ × ModelShareEvent) := do
  let (event, text) ← eventLines raw
  ensure (event ∈ allowed) message
  let data ← eventData floats contractId sequence text
  let s ← accept event data
  return (next s, ⟨event, data⟩)

variable {floats : FloatText} {contractId : Str} {allowed : List Str} {message : String} {sequence : ℕ}
  {accept : Str → Json.Object → Except String σ} {next : σ → σ}

/-- What an accepted event went through. -/
theorem parseBy_ok {raw : List ℕ} {s' : σ} {e : ModelShareEvent}
    (h : parseBy floats contractId allowed message sequence accept next raw = .ok (s', e)) :
    ∃ s₁, e.event ∈ allowed ∧ (Json.memberEq e.data (str "contractId") (.str contractId) = true ∧
      Json.memberEq e.data (str "sequence") (.int sequence) = true) ∧
      accept e.event e.data = .ok s₁ ∧ s' = next s₁ := by
  unfold parseBy at h
  obtain ⟨⟨event, text⟩, -, h⟩ := Peer.bind_ok h
  obtain ⟨hallowed, h⟩ := ensure_bind_ok h
  obtain ⟨data, hdata, h⟩ := Peer.bind_ok h
  obtain ⟨s₁, haccept, h⟩ := Peer.bind_ok h
  cases h
  exact ⟨s₁, of_decide_eq_true hallowed, eventData_ok hdata, haccept, rfl⟩

end Parser

/-! ## Version 1 -/

namespace SseEventDecoder

variable {b : Binding}

def view (s : State b.codec) : View :=
  ⟨s.phase, s.nextSequence, s.resultDigest, s.resultManifest.map fun m => (m.value, m.digest)⟩

/-- The manifest is bound to the Contract and the request. -/
def Bound (b : Binding) (m : ResultManifest b.codec computeResult) : Prop :=
  Json.pyEq (m.member "contractId") (.str b.contractId) = true ∧
    Json.pyEq (m.member "requestDigest") (.str b.requestDigest) = true

theorem distinct (b : Binding) : (b.stream 1 "output.delta").Distinct := b.distinct 1 (by decide)

/-- A released manifest is bound. -/
def Matched (b : Binding) (s : State b.codec) : Prop :=
  ∀ m, s.resultManifest = some m → Bound b m

theorem parse_eq (b : Binding) (s : State b.codec) (raw : List ℕ) :
    parse b s raw = parseBy b.floats b.contractId (s.phase.allowed (str "output.delta")) "SSE event order is invalid"
      s.nextSequence (accept b s) (fun s => { s with nextSequence := s.nextSequence + 1 }) raw := rfl

/-- What an accepted event does, and that a released manifest stays bound. -/
theorem accept_spec {s s' : State b.codec} {event : Str} {data : Json.Object}
    (hallowed : event ∈ s.phase.allowed (str "output.delta"))
    (hnumbered : Numbered (b.stream 1 "output.delta") s.nextSequence ⟨event, data⟩)
    (h : accept b s event data = .ok s') :
    Accepts (b.stream 1 "output.delta") (view s) ⟨event, data⟩
      (view { s' with nextSequence := s'.nextSequence + 1 }) ∧ (Matched b s → Matched b s') := by
  unfold accept at h
  split_ifs at h with h1 h2 h3 h4
  · obtain ⟨hcheck, h⟩ := ensure_bind_ok h
    cases h
    subst h1
    exact ⟨accepts_accepted hallowed hnumbered (by rwa [Bool.and_eq_true] at hcheck), id⟩
  · obtain ⟨-, h⟩ := ensure_bind_ok h
    cases h
    subst h2
    exact ⟨accepts_output (distinct b) hallowed hnumbered, id⟩
  · obtain ⟨digest, hdigest, h⟩ := Peer.bind_ok h
    obtain ⟨-, h⟩ := ensure_bind_ok h
    cases h
    subst h3
    exact ⟨accepts_committed hallowed hnumbered (digestOf_ok hdigest), id⟩
  · obtain ⟨manifest, hmanifest, h⟩ := Peer.bind_ok h
    obtain ⟨hcheck, h⟩ := ensure_bind_ok h
    cases h
    subst h4
    simp only [Bool.and_eq_true, beq_iff_eq] at hcheck
    refine ⟨@accepts_payload _ (view s) data (manifest.value, manifest.digest) hallowed hnumbered
      (ResultManifest.parse_eq_some_iff.mp (orError_ok hmanifest)) hcheck.2.symm, fun _ m hm => ?_⟩
    cases hm
    exact hcheck.1
  · cases h
    obtain rfl := allowed_rest hallowed h1 h2 h3 h4
    exact ⟨accepts_completed hallowed hnumbered, id⟩

theorem parse_spec {s s' : State b.codec} {raw : List ℕ} {e : ModelShareEvent}
    (h : parse b s raw = .ok (s', e)) :
    Accepts (b.stream 1 "output.delta") (view s) e (view s') ∧ (Matched b s → Matched b s') := by
  obtain ⟨s₁, hallowed, hnumbered, haccept, rfl⟩ := parseBy_ok (parse_eq b s raw ▸ h)
  exact accept_spec hallowed hnumbered haccept

end SseEventDecoder

/-! ## Version 2 -/

namespace AudioTtsSseEventDecoder

variable {b : Binding}

def view (s : State b.codec) : View :=
  ⟨s.phase, s.nextSequence, s.resultDigest, s.resultManifest.map fun m => (m.value, m.digest)⟩

theorem distinct (b : Binding) : (b.stream 2 "output.audio.chunk").Distinct := b.distinct 2 (by decide)

/-- A released manifest matches what has arrived, and nothing more arrives. -/
def Matched (b : Binding) (s : State b.codec) : Prop :=
  ∀ m, s.resultManifest = some m →
    (s.phase = .payload ∨ s.phase = .done) ∧ manifestMatches b s m = true

theorem parse_eq (b : Binding) (s : State b.codec) (raw : List ℕ) :
    parse b s raw = parseBy b.floats b.contractId (s.phase.allowed (str "output.audio.chunk"))
      "Audio SSE event order is invalid" s.nextSequence (accept b s)
      (fun s => { s with nextSequence := s.nextSequence + 1 }) raw := rfl

/-- What an accepted event does, and that a released manifest stays matched. -/
theorem accept_spec {s s' : State b.codec} {event : Str} {data : Json.Object}
    (hallowed : event ∈ s.phase.allowed (str "output.audio.chunk"))
    (hnumbered : Numbered (b.stream 2 "output.audio.chunk") s.nextSequence ⟨event, data⟩)
    (h : accept b s event data = .ok s') :
    Accepts (b.stream 2 "output.audio.chunk") (view s) ⟨event, data⟩
      (view { s' with nextSequence := s'.nextSequence + 1 }) ∧ (Matched b s → Matched b s') := by
  unfold accept at h
  split_ifs at h with h1 h2 h3 h4
  · obtain ⟨hcheck, h⟩ := ensure_bind_ok h
    cases h
    subst h1
    have hp := phase_of_accepted (distinct b).accepted hallowed
    exact ⟨accepts_accepted hallowed hnumbered (by rwa [Bool.and_eq_true] at hcheck),
      fun hs m hm => absurd (hs m hm).1 (Phase.unreleased (.inl hp))⟩
  · obtain ⟨decoded, -, h⟩ := Peer.bind_ok h
    obtain ⟨final, -, h⟩ := Peer.bind_ok h
    cases h
    have hp := phase_of_output (distinct b) (.inl h2) hallowed
    subst h2
    exact ⟨accepts_output (distinct b) hallowed hnumbered,
      fun hs m hm => absurd (hs m hm).1 (Phase.unreleased (.inr hp))⟩
  · obtain ⟨-, h⟩ := ensure_bind_ok h
    obtain ⟨digest, hdigest, h⟩ := Peer.bind_ok h
    obtain ⟨-, h⟩ := ensure_bind_ok h
    split at h
    · obtain ⟨-, h⟩ := ensure_bind_ok h
      cases h
      have hp := phase_of_output (distinct b) (.inr h3) hallowed
      subst h3
      exact ⟨accepts_committed hallowed hnumbered (digestOf_ok hdigest),
        fun hs m hm => absurd (hs m hm).1 (Phase.unreleased (.inr hp))⟩
    · cases h
  · obtain ⟨manifest, hmanifest, h⟩ := Peer.bind_ok h
    obtain ⟨hcheck, h⟩ := ensure_bind_ok h
    cases h
    subst h4
    have hdigest : some manifest.digest = s.resultDigest := by
      simp only [manifestMatches, Bool.and_eq_true, beq_iff_eq] at hcheck
      exact hcheck.1.1.1.2
    refine ⟨@accepts_payload _ (view s) data (manifest.value, manifest.digest) hallowed hnumbered
      (ResultManifest.parse_eq_some_iff.mp (orError_ok hmanifest)) hdigest.symm, fun _ m hm => ?_⟩
    cases hm
    exact ⟨.inl rfl, hcheck⟩
  · cases h
    obtain rfl := allowed_rest hallowed h1 h2 h3 h4
    exact ⟨accepts_completed hallowed hnumbered, fun hs m hm => ⟨.inr rfl, (hs m hm).2⟩⟩

theorem parse_spec {s s' : State b.codec} {raw : List ℕ} {e : ModelShareEvent}
    (h : parse b s raw = .ok (s', e)) :
    Accepts (b.stream 2 "output.audio.chunk") (view s) e (view s') ∧ (Matched b s → Matched b s') := by
  obtain ⟨s₁, hallowed, hnumbered, haccept, rfl⟩ := parseBy_ok (parse_eq b s raw ▸ h)
  exact accept_spec hallowed hnumbered haccept

end AudioTtsSseEventDecoder

/-! ## Version 3 -/

namespace MultimodalArtifactSseEventDecoder

variable {b : Binding} {calculatorType : Str} {maximumBytes : ℕ}

def view (s : State b.codec) : View :=
  ⟨s.phase, s.nextSequence, s.resultDigest, s.resultManifest.map fun m => (m.value, m.digest)⟩

theorem distinct (b : Binding) : (b.stream 3 "output.artifact.chunk").Distinct := b.distinct 3 (by decide)

/-- A released manifest matches what has arrived, and nothing more arrives. -/
def Matched (b : Binding) (calculatorType : Str) (s : State b.codec) : Prop :=
  ∀ m, s.resultManifest = some m →
    (s.phase = .payload ∨ s.phase = .done) ∧ manifestMatches b calculatorType s m = true

/-- What an accepted event does, and that a released manifest stays matched. -/
theorem accept_spec {s s' : State b.codec} {event : Str} {data : Json.Object}
    (hallowed : event ∈ s.phase.allowed (str "output.artifact.chunk"))
    (hnumbered : Numbered (b.stream 3 "output.artifact.chunk") s.nextSequence ⟨event, data⟩)
    (h : accept b calculatorType maximumBytes s event data = .ok s') :
    Accepts (b.stream 3 "output.artifact.chunk") (view s) ⟨event, data⟩
      (view { s' with nextSequence := s'.nextSequence + 1 }) ∧
      (Matched b calculatorType s → Matched b calculatorType s') := by
  unfold accept at h
  split_ifs at h with h1 h2 h3 h4
  · obtain ⟨hcheck, h⟩ := ensure_bind_ok h
    cases h
    subst h1
    have hp := phase_of_accepted (distinct b).accepted hallowed
    simp only [Bool.and_eq_true] at hcheck
    exact ⟨accepts_accepted hallowed hnumbered hcheck.1,
      fun hs m hm => absurd (hs m hm).1 (Phase.unreleased (.inl hp))⟩
  · obtain ⟨decoded, -, h⟩ := Peer.bind_ok h
    obtain ⟨final, -, h⟩ := Peer.bind_ok h
    cases h
    have hp := phase_of_output (distinct b) (.inl h2) hallowed
    subst h2
    exact ⟨accepts_output (distinct b) hallowed hnumbered,
      fun hs m hm => absurd (hs m hm).1 (Phase.unreleased (.inr hp))⟩
  · obtain ⟨-, h⟩ := ensure_bind_ok h
    obtain ⟨digest, hdigest, h⟩ := Peer.bind_ok h
    obtain ⟨usage, -, h⟩ := Peer.bind_ok h
    cases h
    have hp := phase_of_output (distinct b) (.inr h3) hallowed
    subst h3
    exact ⟨accepts_committed hallowed hnumbered (digestOf_ok hdigest),
      fun hs m hm => absurd (hs m hm).1 (Phase.unreleased (.inr hp))⟩
  · obtain ⟨manifest, hmanifest, h⟩ := Peer.bind_ok h
    obtain ⟨hcheck, h⟩ := ensure_bind_ok h
    cases h
    subst h4
    have hdigest : some manifest.digest = s.resultDigest := by
      simp only [manifestMatches, Bool.and_eq_true, beq_iff_eq] at hcheck
      exact hcheck.1.1.2
    refine ⟨@accepts_payload _ (view s) data (manifest.value, manifest.digest) hallowed hnumbered
      (ResultManifest.parse_eq_some_iff.mp (orError_ok hmanifest)) hdigest.symm, fun _ m hm => ?_⟩
    cases hm
    exact ⟨.inl rfl, hcheck⟩
  · cases h
    obtain rfl := allowed_rest hallowed h1 h2 h3 h4
    exact ⟨accepts_completed hallowed hnumbered, fun hs m hm => ⟨.inr rfl, (hs m hm).2⟩⟩

theorem parse_spec {s s' : State b.codec} {raw : List ℕ} {e : ModelShareEvent}
    (h : parse b calculatorType maximumBytes s raw = .ok (s', e)) :
    Accepts (b.stream 3 "output.artifact.chunk") (view s) e (view s') ∧
      (Matched b calculatorType s → Matched b calculatorType s') := by
  unfold parse at h
  obtain ⟨text, -, h⟩ := Peer.bind_ok h
  split at h
  · obtain ⟨value, -, h⟩ := Peer.bind_ok h
    obtain ⟨-, h⟩ := ensure_bind_ok h
    split at h
    · cases h
    · obtain ⟨hcheck, h⟩ := ensure_bind_ok h
      obtain ⟨s₁, haccept, h⟩ := Peer.bind_ok h
      cases h
      simp only [Bool.and_eq_true, decide_eq_true_eq] at hcheck
      exact accept_spec hcheck.1.1 ⟨hcheck.1.2, hcheck.2⟩ haccept
  · cases h

end MultimodalArtifactSseEventDecoder

end AI2Apps.ModelSharing
