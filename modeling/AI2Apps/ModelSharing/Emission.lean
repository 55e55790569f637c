import AI2Apps.ModelSharing.Framing
import AI2Apps.ModelSharing.ProviderJobs

/-!
# What a completed stream has sent

A stream that reaches `job.completed` has sent one event after the other, and
which events is a function of the Worker's execution (`completionOf`).  A program
that sends events and otherwise touches nothing `Emits` them; a body `Completes`
with what it has sent when the job is over.

* `streamFor_completes`: the events of a completed stream, and the digest in the ledger.
* `framedSize`: how many bytes these events take as they are sent.
-/

namespace AI2Apps.ModelSharing

open Faults

namespace Provider

/-! ## The events of an execution -/

def deltaEvents (contractId : Str) : ℕ → List Str → List OutEvent
  | _, [] => []
  | sequence, text :: texts =>
    ("output.delta",
      [(str "contractId", .str contractId), (str "sequence", .int sequence),
        (str "text", .str text)]) :: deltaEvents contractId (sequence + 1) texts

def chunkEvents (event artifactId : String) (contractId : Str) (content : List ℕ) :
    ℕ → List ℕ → List OutEvent
  | _, [] => []
  | sequence, offset :: offsets =>
    let chunk := (content.drop offset).take chunkSize
    (event,
      [(str "contractId", .str contractId), (str "sequence", .int sequence),
        (str "artifactId", .str (str artifactId)), (str "offset", .int offset),
        (str "bytes", .str (Base64Url.encode chunk)),
        (str "final", .bool (offset + chunk.length == content.length))]) ::
      chunkEvents event artifactId contractId content (sequence + 1) offsets

/-- The events from the commitment on. -/
def closingEvents (contractId : Str) (sequence : ℕ) (committed manifest : Json.Object) :
    List OutEvent :=
  [("result.committed", committed),
    ("result.payload",
      [(str "contractId", .str contractId), (str "sequence", .int (sequence + 1)),
        (str "resultManifest", .obj manifest)]),
    ("job.completed", [(str "contractId", .str contractId), (str "sequence", .int (sequence + 2))])]

def Delta.text? : Delta → Option Str
  | .text s => some s
  | _ => none

/-- What a completed stream is made of: the events between the first and the
commitment, and what is committed and released. -/
structure Completion where
  outputs : List OutEvent
  committed : Json.Object
  manifest : Json.Object
  digest : Str

/-- All the events of a completion. -/
def Completion.events (c : Completion) (request : InferenceRequest) : List OutEvent :=
  ("job.accepted", acceptedData request) ::
    (c.outputs ++ closingEvents request.contractId (1 + c.outputs.length) c.committed c.manifest)

/-- A text execution, once its result is created. -/
def textCompletionOf {codec : ManifestCodec} (request : InferenceRequest) (texts : List Str)
    (usage : InferenceUsage) (result : ResultManifest codec computeResult) : Completion where
  outputs := deltaEvents request.contractId 1 texts
  committed :=
    [(str "contractId", .str request.contractId), (str "sequence", .int (1 + texts.length : ℕ)),
      (str "resultDigest", .str result.digest), (str "inputTokens", .int usage.inputTokens),
      (str "outputTokens", .int usage.outputTokens)]
  manifest := result.value
  digest := result.digest

def textCompletion (env : Env) (request : InferenceRequest) : Option Completion := do
  let texts ← env.execution.deltas.mapM Delta.text?
  let usage ← env.execution.usage
  let result ← ComputeResultManifest.create env.codec request.contractId request.requestDigest
    texts.flatten usage.finishReason env.nonce
  return textCompletionOf request texts usage result

def audioCompletionOf {codec : ManifestCodec} (request : InferenceRequest) (audio : List ℕ)
    (inputUnits outputUnits : ℤ) (result : ResultManifest codec audioTtsResult) : Completion where
  outputs := chunkEvents "output.audio.chunk" "audio-0" request.contractId audio 1
    (sliceOffsets chunkSize audio.length)
  committed :=
    [(str "contractId", .str request.contractId),
      (str "sequence", .int (1 + (sliceOffsets chunkSize audio.length).length : ℕ)),
      (str "resultDigest", .str result.digest), (str "inputUnit", .str (str "unicode_scalar")),
      (str "inputUnits", .int inputUnits), (str "outputUnit", .str (str "audio_millisecond")),
      (str "outputUnits", .int outputUnits)]
  manifest := result.value
  digest := result.digest

def audioCompletion (env : Env) (request : InferenceRequest) : Option Completion := do
  let audio ← env.execution.audio
  let inputUnits ← env.execution.inputUnits.int?
  let outputUnits ← env.execution.outputUnits.int?
  let result ← AudioTtsResultManifest.create env.codec request.contractId request.requestDigest
    audio.length (env.codec.sha256 audio) inputUnits outputUnits env.nonce
  return audioCompletionOf request audio inputUnits outputUnits result

def multimodalCompletionOf {codec : ManifestCodec} (request : InferenceRequest)
    (actualUsage : Json.Object) (artifact : List ℕ)
    (result : ResultManifest codec multimodalResult) : Completion where
  outputs := chunkEvents "output.artifact.chunk" "artifact-0" request.contractId artifact 1
    (sliceOffsets chunkSize artifact.length)
  committed :=
    [(str "contractId", .str request.contractId),
      (str "sequence", .int (1 + (sliceOffsets chunkSize artifact.length).length : ℕ)),
      (str "resultDigest", .str result.digest), (str "actualUsage", .obj actualUsage)]
  manifest := result.value
  digest := result.digest

def multimodalCompletion (env : Env) (request : InferenceRequest) (calculatorType : Str) :
    Option Completion := do
  let actualUsage ← validateActualUsage calculatorType env.execution.actualUsage
  let artifact ← env.execution.artifact
  let contentType ← env.execution.contentType
  let result ← MultimodalResultManifest.create env.codec request.contractId calculatorType
    actualUsage
    [[(str "sha256", .str (env.codec.sha256 artifact)), (str "contentType", .str contentType),
      (str "byteSize", .str (JsonText.natText artifact.length))]]
  return multimodalCompletionOf request actualUsage artifact result

/-- What an execution completes with, by the kind of the request. -/
def completionOf (env : Env) (request : InferenceRequest) : Option Completion :=
  match request.kind with
  | .text => textCompletion env request
  | .audioTts => audioCompletion env request
  | .multimodal => multimodalCompletion env request ((calculatorOf request).getD [])

/-- The bytes of the events as they are sent. -/
def framed (floats : FloatText) (events : List OutEvent) : List ℕ :=
  events.flatMap fun e => (sse floats e.1 e.2).getD []

/-- How many bytes the events of an execution take as they are sent. -/
def framedSize (env : Env) (request : InferenceRequest) : ℕ :=
  match completionOf env request with
  | none => 0
  | some c => (framed env.floats (c.events request)).length

/-! ## Programs that send events -/

/-- The byte strings are the events as they are sent. -/
def Framed (floats : FloatText) (events : List OutEvent) (raws : List (List ℕ)) : Prop :=
  List.Forall₂ (fun e raw => sse floats e.1 e.2 = some raw) events raws

theorem flatten_of_framed {floats : FloatText} {events : List OutEvent} {raws : List (List ℕ)}
    (h : Framed floats events raws) : raws.flatten = framed floats events := by
  induction h with
  | nil => rfl
  | cons hraw _ ih =>
    rw [List.flatten_cons, ih]
    simp only [framed, List.flatMap_cons, hraw, Option.getD_some]

/-- After `s`, the events have been sent and nothing else has changed. -/
structure Sends (env : Env) (s : State) (events : List OutEvent) (s' : State) : Prop where
  terminal : s'.terminal = s.terminal
  jobs : s'.jobs = s.jobs
  emitted : ∃ raws, Framed env.floats events raws ∧ s'.emitted = s.emitted ++ raws

theorem Sends.refl (env : Env) (s : State) : Sends env s [] s :=
  ⟨rfl, rfl, [], .nil, (List.append_nil _).symm⟩

theorem Sends.trans {env : Env} {s s' s'' : State} {events more : List OutEvent}
    (h : Sends env s events s') (h' : Sends env s' more s'') : Sends env s (events ++ more) s'' := by
  obtain ⟨raws, hraws, hemitted⟩ := h.emitted
  obtain ⟨raws', hraws', hemitted'⟩ := h'.emitted
  exact ⟨h'.terminal.trans h.terminal, h'.jobs.trans h.jobs, raws ++ raws',
    List.rel_append hraws hraws', by rw [hemitted', hemitted, List.append_assoc]⟩

/-- The program sends events and returns, or raises before the job is over. -/
def Emits {α : Type} (env : Env) (x : Run α) (Q : α → List OutEvent → Prop) : Prop :=
  ∀ s, s.terminal = false →
    wp x (fun a s' => ∃ events, Q a events ∧ Sends env s events s')
      (fun _ s' => s'.terminal = false) s

section Emits

variable {env : Env} {α β : Type}

theorem Emits.bind {x : Run α} {f : α → Run β} {Q : α → List OutEvent → Prop}
    {R : β → List OutEvent → Prop} (hx : Emits env x Q)
    (hf : ∀ a events, Q a events → Emits env (f a) fun b more => R b (events ++ more)) :
    Emits env (x >>= f) R := fun s hs => by
  rw [wp_bind]
  refine wp_mono (hx s hs) ?_ fun _ _ h => h
  rintro a s' ⟨events, hQ, hsends⟩
  refine wp_mono (hf a events hQ s' (hsends.terminal.trans hs)) ?_ fun _ _ h => h
  rintro b s'' ⟨more, hR, hmore⟩
  exact ⟨events ++ more, hR, hsends.trans hmore⟩

theorem Emits.mono {x : Run α} {Q R : α → List OutEvent → Prop} (hx : Emits env x Q)
    (h : ∀ a events, Q a events → R a events) : Emits env x R := fun s hs => by
  refine wp_mono (hx s hs) ?_ fun _ _ h => h
  rintro a s' ⟨events, hQ, hsends⟩
  exact ⟨events, h a events hQ, hsends⟩

/-- A program that changes nothing. -/
theorem Emits.silent {x : Run α} {Q : α → Prop}
    (h : ∀ s, wp x (fun a s' => Q a ∧ s' = s) (fun _ s' => s' = s) s) :
    Emits env x fun a events => Q a ∧ events = [] := fun s hs => by
  refine wp_mono (h s) ?_ fun _ s' h => by rw [h, hs]
  rintro a s' ⟨hQ, rfl⟩
  exact ⟨[], ⟨hQ, rfl⟩, .refl env s'⟩

theorem Emits.pure (a : α) {Q : α → List OutEvent → Prop} (h : Q a []) :
    Emits env (pure a) Q := fun s _ => ⟨[], h, .refl env s⟩

theorem Emits.throw (e : Exc) {Q : α → List OutEvent → Prop} : Emits env (throw e : Run α) Q :=
  fun _ hs => hs

theorem awaitValue_silent (o : Option α) (s : State) :
    wp (awaitValue o) (fun a s' => o = some a ∧ s' = s) (fun _ s' => s' = s) s := by
  cases o with
  | none => rfl
  | some a => exact ⟨rfl, rfl⟩

theorem failIf_silent (c : Prop) [Decidable c] (code message : String) (statusCode : ℕ) (s : State) :
    wp (failIf c code message statusCode) (fun _ s' => ¬ c ∧ s' = s) (fun _ s' => s' = s) s := by
  unfold failIf
  by_cases hc : c
  · rw [wp_only_pos hc]
    rfl
  · rw [wp_only_neg hc]
    exact ⟨hc, rfl⟩

theorem emits_awaitValue (o : Option α) :
    Emits env (awaitValue o) fun a events => o = some a ∧ events = [] :=
  .silent (awaitValue_silent o)

theorem emits_failIf (c : Prop) [Decidable c] (code message : String) (statusCode : ℕ) :
    Emits env (failIf c code message statusCode) fun _ events => ¬ c ∧ events = [] :=
  .silent (failIf_silent c code message statusCode)

theorem emits_fault (o : Option Exc) : Emits env (fault o : Run Unit) fun _ events => events = [] :=
  fun s hs => by
    cases o with
    | none => exact ⟨[], rfl, .refl env s⟩
    | some e => exact hs

theorem emits_commit (message : String) :
    Emits env (commit env message) fun _ events => events = [] := by
  refine .bind (emits_fault _) ?_
  rintro _ _ rfl
  refine .bind (emits_awaitValue _) ?_
  rintro committed _ ⟨-, rfl⟩
  refine .bind (emits_failIf _ _ _ _) ?_
  rintro _ _ ⟨-, rfl⟩
  exact .pure _ rfl

theorem emits_checkDuration (calculatorType : Str) (actualUsage boundedUsage : Json.Object) :
    Emits env (checkDuration calculatorType actualUsage boundedUsage) fun _ events => events = [] := by
  unfold checkDuration only
  split_ifs
  · refine .bind (emits_awaitValue _) ?_
    rintro within _ ⟨-, rfl⟩
    exact (emits_failIf (¬ within) _ _ _).mono fun _ _ h => h.2
  · exact .pure _ rfl

/-- A yield sends its event, unless it cannot be written; the consumer may raise
after that. -/
theorem yieldSse_spec (event : String) (data : Json.Object) (s : State) :
    wp (yieldSse env event data) (fun _ s' => Sends env s [(event, data)] s')
      (fun _ s' => Sends env s [(event, data)] s' ∨
        sse env.floats event data = none ∧ s' = s) s := by
  unfold yieldSse
  rw [wp_bind]
  cases hraw : sse env.floats event data with
  | none => exact Or.inr ⟨rfl, rfl⟩
  | some raw =>
    have hsends : Sends env s [(event, data)] { s with emitted := s.emitted ++ [raw] } :=
      ⟨rfl, rfl, [raw], .cons hraw .nil, rfl⟩
    show wp (fault (env.consumer ((s.emitted ++ [raw]).length - 1))) _ _
      { s with emitted := s.emitted ++ [raw] }
    cases env.consumer ((s.emitted ++ [raw]).length - 1) with
    | none => exact hsends
    | some e => exact Or.inl hsends

theorem emits_yieldSse (event : String) (data : Json.Object) :
    Emits env (yieldSse env event data) fun _ events => events = [(event, data)] ∧
      (sse env.floats event data).isSome = true := fun s hs => by
  refine wp_mono (yieldSse_spec event data s) (fun _ s' h => ?_) ?_
  · obtain ⟨raws, hraws, -⟩ := h.emitted
    cases hraws with
    | cons hraw _ => exact ⟨_, ⟨rfl, by rw [hraw]; rfl⟩, h⟩
  · rintro _ s' (h | ⟨-, rfl⟩)
    · exact h.terminal.trans hs
    · exact hs

/-- The chunks of a content are sent in order. -/
theorem emits_streamChunks (event artifactId : String) (contractId : Str) (content : List ℕ)
    (sequence : ℕ) (offsets : List ℕ) :
    Emits env (streamChunks env event artifactId contractId content sequence offsets)
      fun next events => next = sequence + offsets.length ∧
        events = chunkEvents event artifactId contractId content sequence offsets := by
  induction offsets generalizing sequence with
  | nil => exact .pure _ ⟨rfl, rfl⟩
  | cons offset offsets ih =>
    rw [streamChunks]
    refine .bind (emits_yieldSse _ _) ?_
    rintro _ _ ⟨rfl, -⟩ s hs
    refine wp_mono (ih (sequence + 1) s hs) ?_ fun _ _ h => h
    rintro next s' ⟨more, ⟨rfl, rfl⟩, hsends⟩
    exact ⟨_, ⟨by rw [List.length_cons]; omega, rfl⟩, hsends⟩

/-- The deltas are sent in order; all of them are texts. -/
theorem emits_streamDeltas (contractId : Str) (limit sequence : ℕ) (text : Str) (textBytes : ℕ)
    (deltas : List Delta) :
    Emits env (streamDeltas env contractId limit sequence text textBytes deltas)
      fun next events => ∃ texts, deltas.mapM Delta.text? = some texts ∧
        next = (sequence + texts.length, text ++ texts.flatten) ∧
        events = deltaEvents contractId sequence texts := by
  induction deltas generalizing sequence text textBytes with
  | nil => exact .pure _ ⟨[], rfl, by simp, rfl⟩
  | cons delta deltas ih =>
    cases delta with
    | fails => exact .throw _
    | nonText => exact .throw _
    | text delta =>
      rw [streamDeltas]
      refine .bind (emits_awaitValue _) ?_
      rintro encoded _ ⟨-, rfl⟩
      refine .bind (emits_failIf _ _ _ _) ?_
      rintro _ _ ⟨-, rfl⟩
      refine .bind (emits_yieldSse _ _) ?_
      rintro _ _ ⟨rfl, -⟩ s hs
      refine wp_mono (ih _ _ _ s hs) ?_ fun _ _ h => h
      rintro next s' ⟨more, ⟨texts, htexts, rfl, rfl⟩, hsends⟩
      refine ⟨_, ⟨delta :: texts, ?_, ?_, rfl⟩, hsends⟩
      · rw [List.mapM_cons, htexts]
        rfl
      · rw [List.length_cons, List.flatten_cons, List.append_assoc]
        exact congrArg₂ Prod.mk (by omega) rfl

end Emits

/-! ## Bodies that complete -/

/-- The job is over after `s`: its events have been sent and its digest is recorded. -/
def Completed (env : Env) (contractId : Str) (Q : List OutEvent → Str → Prop) (s s' : State) :
    Prop :=
  ∃ events digest raws, Q events digest ∧ Framed env.floats events raws ∧
    s'.emitted = s.emitted ++ raws ∧
    (s'.jobs contractId).bind JobRecord.resultDigest = some digest

/-- Whenever the body, started with a record that `P` holds of, ends with the job
over, its events have been sent. -/
def Completes (env : Env) (contractId : Str) (P : Option JobRecord → Prop) (body : Run Unit)
    (Q : List OutEvent → Str → Prop) : Prop :=
  ∀ s, s.terminal = false → P (s.jobs contractId) →
    wp body (fun _ s' => Completed env contractId Q s s')
      (fun _ s' => s'.terminal = true → Completed env contractId Q s s') s

section Completes

variable {env : Env} {contractId : Str} {P : Option JobRecord → Prop} {α : Type}

theorem Completes.bind {x : Run α} {f : α → Run Unit} {Q : α → List OutEvent → Prop}
    {R : List OutEvent → Str → Prop} (hx : Emits env x Q)
    (hf : ∀ a events, Q a events →
      Completes env contractId P (f a) fun more digest => R (events ++ more) digest) :
    Completes env contractId P (x >>= f) R := fun s hs hjob => by
  rw [wp_bind]
  refine wp_mono (hx s hs) ?_ fun _ s' h ht => absurd (h.symm.trans ht) (by simp)
  rintro a s' ⟨events, hQ, hsends⟩
  obtain ⟨raws, hraws, hemitted⟩ := hsends.emitted
  have hcompleted : ∀ s'', Completed env contractId (fun more digest => R (events ++ more) digest)
      s' s'' → Completed env contractId R s s'' := by
    rintro s'' ⟨more, digest, raws', hR, hraws', hemitted', hdigest⟩
    exact ⟨events ++ more, digest, raws ++ raws', hR, List.rel_append hraws hraws',
      by rw [hemitted', hemitted, List.append_assoc], hdigest⟩
  refine wp_mono (hf a events hQ s' (hsends.terminal.trans hs) (by rw [hsends.jobs]; exact hjob))
    (fun _ s'' h => hcompleted s'' h) fun _ s'' h ht => hcompleted s'' (h ht)

theorem Completes.mono {body : Run Unit} {Q R : List OutEvent → Str → Prop}
    (h : Completes env contractId P body Q) (hQR : ∀ events digest, Q events digest → R events digest) :
    Completes env contractId P body R := fun s hs hjob => by
  have hcompleted : ∀ s', Completed env contractId Q s s' → Completed env contractId R s s' := by
    rintro s' ⟨events, digest, raws, hQ, hrest⟩
    exact ⟨events, digest, raws, hQR events digest hQ, hrest⟩
  exact wp_mono (h s hs hjob) (fun _ s' h => hcompleted s' h) fun _ s' h ht => hcompleted s' (h ht)

theorem Completes.fail (code message : String) (statusCode : ℕ) {Q : List OutEvent → Str → Prop} :
    Completes env contractId P (fail code message statusCode) Q := fun s hs _ ht =>
  absurd (hs.symm.trans ht) (by simp)

/-- An object whose first member is a text is written only if the text can be. -/
theorem isSome_encode_quote {floats : FloatText} {event : String} {key text : Str}
    {data : Json.Object} (h : (sse floats event ((key, .str text) :: data)).isSome = true) :
    (Utf8.encode (JsonText.quote text)).isSome = true := by
  have hdumps := (isSome_sse_iff.mp h).2
  simp only [JsonText.dumps, Utf8.isSome_encode_append, Utf8.isSome_encode_cons] at hdumps
  exact hdumps.1.2.2

/-- The last event can be written if its Contract can. -/
theorem isSome_sse_completed {floats : FloatText} {contractId : Str} {sequence : ℤ}
    (h : (Utf8.encode (JsonText.quote contractId)).isSome = true) :
    (sse floats "job.completed"
      [(str "contractId", .str contractId), (str "sequence", .int sequence)]).isSome = true := by
  have hint : (Utf8.encode (JsonText.intText sequence)).isSome = true := by
    rw [Utf8.encode_ascii fun c hc => (JsonText.mem_intText hc).2]
    rfl
  have hascii : ∀ s ∈ [JsonText.quote (str "contractId"), JsonText.quote (str "sequence"), [125]],
      (Utf8.encode s).isSome = true := by decide
  have hchar : ∀ c ∈ [44, 58, 123], (Utf8.encodeChar c).isSome = true := by decide
  rw [isSome_sse_iff]
  refine ⟨by decide, ?_⟩
  simp only [JsonText.dumps, JsonText.dumpsMembers, Utf8.isSome_encode_append,
    Utf8.isSome_encode_cons, List.cons_append]
  simp only [h, hint, hascii _ (show JsonText.quote (str "contractId") ∈ _ by simp),
    hascii _ (show JsonText.quote (str "sequence") ∈ _ by simp), hchar 44 (by simp),
    hchar 58 (by simp), hchar 123 (by simp), true_and]
  decide

/-- A status update writes the Contract's record, or raises and writes nothing. -/
theorem setStatus_spec (u : StatusUpdate) (s : State) :
    wp (setStatus contractId u)
      (fun _ s' => s'.terminal = s.terminal ∧ s'.emitted = s.emitted ∧
        s'.jobs contractId = (s.jobs contractId).map u.apply)
      (fun _ s' => s' = s) s := by
  unfold setStatus
  simp only [wp_bind, wp_get]
  unfold Jobs.setStatus
  split_ifs
  · exact ⟨rfl, rfl, Function.update_self _ _ _⟩
  · rfl

/-- The record has the digest. -/
def Recorded (digest : Str) (record : Option JobRecord) : Prop :=
  record.bind JobRecord.resultDigest = some digest

/-- The events after the recorded commitment. -/
theorem completes_release (digest : Str) (sequence : ℕ) (committed manifest : Json.Object) :
    Completes env contractId (Recorded digest) (release env contractId sequence committed manifest)
      fun events d => events = closingEvents contractId sequence committed manifest ∧ d = digest := by
  refine .bind (emits_yieldSse _ _) ?_
  rintro _ _ ⟨rfl, -⟩
  refine .bind (emits_yieldSse _ _) ?_
  rintro _ _ ⟨rfl, hpayload⟩ s hs hrecorded
  have hsome := @isSome_sse_completed env.floats contractId (sequence + 2)
    (isSome_encode_quote hpayload)
  rw [wp_bind]
  refine wp_mono (setStatus_spec _ s) ?_ ?_
  swap
  · rintro _ s' rfl ht
    exact absurd (hs.symm.trans ht) (by simp)
  rintro _ s' ⟨-, hemitted, hjob⟩
  have hdigest : Recorded digest (s'.jobs contractId) := by
    rw [hjob]
    unfold Recorded at hrecorded ⊢
    cases hold : s.jobs contractId with
    | none => rw [hold] at hrecorded; cases hrecorded
    | some record =>
      rw [hold] at hrecorded
      simpa [StatusUpdate.apply] using hrecorded
  have hdone : ∀ s'', Sends env { s' with terminal := true } [("job.completed",
      [(str "contractId", .str contractId), (str "sequence", .int (sequence + 2))])] s'' →
      Completed env contractId (fun more d => [("result.committed", committed)] ++
        ([("result.payload", [(str "contractId", .str contractId), (str "sequence", .int (sequence + 1)),
          (str "resultManifest", .obj manifest)])] ++ more) =
          closingEvents contractId sequence committed manifest ∧ d = digest) s s'' := by
    intro s'' hsends
    obtain ⟨raws, hraws, hemitted'⟩ := hsends.emitted
    exact ⟨_, digest, raws, ⟨rfl, rfl⟩, hraws, hemitted'.trans (by rw [hemitted]),
      by rw [hsends.jobs]; exact hdigest⟩
  rw [wp_bind, wp_modify]
  refine wp_mono (yieldSse_spec _ _ _) (fun _ s'' h => hdone s'' h) ?_
  rintro _ s'' (h | ⟨hnone, -⟩) -
  · exact hdone s'' h
  · exact absurd hnone (Option.isSome_iff_ne_none.mp hsome)

/-- From the Cloud's acceptance to the end. -/
theorem completes_settle {u : StatusUpdate} {digest : Str} (hu : u.resultDigest = some digest)
    (sequence : ℕ) (committed manifest : Json.Object) :
    Completes env contractId (· ≠ none)
      (do setStatus contractId u; release env contractId sequence committed manifest)
      fun events d => events = closingEvents contractId sequence committed manifest ∧ d = digest := by
  intro s hs hjob
  rw [wp_bind]
  refine wp_mono (setStatus_spec u s) ?_ ?_
  swap
  · rintro _ s' rfl ht
    exact absurd (hs.symm.trans ht) (by simp)
  rintro _ s' ⟨hterminal, hemitted, hjob'⟩
  obtain ⟨record, hrecord⟩ := Option.ne_none_iff_exists'.mp hjob
  have hrecorded : Recorded digest (s'.jobs contractId) := by
    rw [hjob', hrecord, Recorded, Option.map_some, Option.bind_some, StatusUpdate.apply, hu]
    rfl
  refine wp_mono (completes_release digest sequence committed manifest s' (hterminal.trans hs)
    hrecorded) (fun _ s'' h => ?_) fun _ s'' h ht => ?_
  · obtain ⟨events, d, raws, hQ, hraws, hemitted', hd⟩ := h
    exact ⟨events, d, raws, hQ, hraws, hemitted ▸ hemitted', hd⟩
  · obtain ⟨events, d, raws, hQ, hraws, hemitted', hd⟩ := h ht
    exact ⟨events, d, raws, hQ, hraws, hemitted ▸ hemitted', hd⟩

end Completes

/-! ## The three bodies -/

@[simp] theorem length_deltaEvents (contractId : Str) (sequence : ℕ) (texts : List Str) :
    (deltaEvents contractId sequence texts).length = texts.length := by
  induction texts generalizing sequence with
  | nil => rfl
  | cons text texts ih => rw [deltaEvents, List.length_cons, ih, List.length_cons]

@[simp] theorem length_chunkEvents (event artifactId : String) (contractId : Str)
    (content : List ℕ) (sequence : ℕ) (offsets : List ℕ) :
    (chunkEvents event artifactId contractId content sequence offsets).length = offsets.length := by
  induction offsets generalizing sequence with
  | nil => rfl
  | cons offset offsets ih => rw [chunkEvents, List.length_cons, ih, List.length_cons]

/-- What a stream has checked of the execution before it completes. -/
def Checked (env : Env) (maxBytes : ℕ) : RequestKind → Prop
  | .text => ∀ usage, env.execution.usage = some usage →
      0 ≤ usage.inputTokens ∧ 0 ≤ usage.outputTokens
  | .audioTts => ∀ audio, env.execution.audio = some audio →
      audio ≠ [] ∧ audio.length ≤ 67108864 ∧
        (∀ i, env.execution.inputUnits.int? = some i → 1 ≤ i) ∧
        ∀ i, env.execution.outputUnits.int? = some i → 1 ≤ i
  | .multimodal => ∀ artifact, env.execution.artifact = some artifact →
      artifact ≠ [] ∧ artifact.length ≤ maxBytes

/-- What a body has sent when it completes. -/
def SentFor (env : Env) (maxBytes : ℕ) (request : InferenceRequest) (completion : Option Completion)
    (kind : RequestKind) (events : List OutEvent) (digest : Str) : Prop :=
  Checked env maxBytes kind ∧ ∃ c, completion = some c ∧ digest = c.digest ∧
    events = c.outputs ++
      closingEvents request.contractId (1 + c.outputs.length) c.committed c.manifest

theorem completes_textBody (env : Env) (maxBytes : ℕ) (request : InferenceRequest) :
    Completes env request.contractId (· ≠ none) (textBody env maxBytes request)
      (SentFor env maxBytes request (textCompletion env request) .text) := by
  refine .bind (emits_streamDeltas _ _ _ _ _ _) ?_
  rintro _ _ ⟨texts, htexts, rfl, rfl⟩
  refine .bind (emits_awaitValue _) ?_
  rintro usage _ ⟨husage, rfl⟩
  refine .bind (emits_failIf _ _ _ _) ?_
  rintro _ _ ⟨hnonneg, rfl⟩
  refine .bind (emits_awaitValue _) ?_
  rintro result _ ⟨hresult, rfl⟩
  refine .bind (emits_commit _) ?_
  rintro _ _ rfl
  refine (completes_settle rfl _ _ _).mono ?_
  rintro _ _ ⟨rfl, rfl⟩
  rw [not_or, not_lt, not_lt] at hnonneg
  refine ⟨fun usage' h => ?_, textCompletionOf request texts usage result, ?_, rfl, ?_⟩
  · rw [husage] at h
    cases h
    exact hnonneg
  · rw [List.nil_append] at hresult
    simp only [textCompletion, htexts, husage, hresult, Option.bind_eq_bind, Option.bind_some,
      Option.pure_def]
  · simp only [textCompletionOf, length_deltaEvents, List.nil_append]

theorem completes_audioBody (env : Env) (maxBytes : ℕ) (request : InferenceRequest) :
    Completes env request.contractId (· ≠ none) (audioBody env maxBytes request)
      (SentFor env maxBytes request (audioCompletion env request) .audioTts) := by
  unfold audioBody
  split
  · exact .fail _ _ _
  · exact .fail _ _ _
  · rename_i audio hne haudio
    refine .bind (emits_failIf _ _ _ _) ?_
    rintro _ _ ⟨hlength, rfl⟩
    split
    · rename_i inputUnits outputUnits hinput houtput
      refine .bind (emits_failIf _ _ _ _) ?_
      rintro _ _ ⟨hpositive, rfl⟩
      refine .bind (emits_streamChunks _ _ _ _ _ _) ?_
      rintro _ _ ⟨rfl, rfl⟩
      refine .bind (emits_awaitValue _) ?_
      rintro result _ ⟨hresult, rfl⟩
      refine .bind (emits_commit _) ?_
      rintro _ _ rfl
      refine (completes_settle rfl _ _ _).mono ?_
      rintro _ _ ⟨rfl, rfl⟩
      rw [not_or, not_lt, not_lt] at hpositive
      refine ⟨fun audio' h => ?_, audioCompletionOf request audio inputUnits outputUnits result, ?_,
        rfl, ?_⟩
      · rw [haudio] at h
        cases h
        refine ⟨hne, by omega, fun i hi => ?_, fun i hi => ?_⟩
        · rw [hinput] at hi
          cases hi
          exact hpositive.1
        · rw [houtput] at hi
          cases hi
          exact hpositive.2
      · simp only [audioCompletion, haudio, hinput, houtput, hresult, Json.int?,
          Option.bind_eq_bind, Option.bind_some, Option.pure_def]
      · have hlength : (audioCompletionOf request audio inputUnits outputUnits
            result).outputs.length = (sliceOffsets chunkSize audio.length).length :=
          length_chunkEvents _ _ _ _ _ _
        rw [hlength]
        repeat rw [List.nil_append]
        rfl
    · exact .fail _ _ _

theorem completes_multimodalBody (env : Env) (maxBytes : ℕ) (request : InferenceRequest)
    (calculatorType : Str) (boundedUsage : Json.Object) :
    Completes env request.contractId (· ≠ none)
      (multimodalBody env maxBytes request calculatorType boundedUsage)
      (SentFor env maxBytes request (multimodalCompletion env request calculatorType) .multimodal) := by
  unfold multimodalBody
  refine .bind (emits_awaitValue _) ?_
  rintro actualUsage _ ⟨husage, rfl⟩
  refine .bind (emits_checkDuration _ _ _) ?_
  rintro _ _ rfl
  split
  · exact .fail _ _ _
  · exact .fail _ _ _
  · rename_i artifact hne hartifact
    split
    · exact .fail _ _ _
    · exact .fail _ _ _
    · rename_i contentType hne' hcontentType
      refine .bind (emits_failIf _ _ _ _) ?_
      rintro _ _ ⟨hlength, rfl⟩
      refine .bind (emits_streamChunks _ _ _ _ _ _) ?_
      rintro _ _ ⟨rfl, rfl⟩
      refine .bind (emits_awaitValue _) ?_
      rintro result _ ⟨hresult, rfl⟩
      refine .bind (emits_commit _) ?_
      rintro committed _ rfl
      refine .bind (emits_awaitValue _) ?_
      rintro released _ ⟨-, rfl⟩
      refine (completes_settle rfl _ _ _).mono ?_
      rintro _ _ ⟨rfl, rfl⟩
      refine ⟨fun artifact' h => ?_, multimodalCompletionOf request actualUsage artifact result, ?_,
        rfl, ?_⟩
      · rw [hartifact] at h
        cases h
        exact ⟨hne, not_lt.mp hlength⟩
      · simp only [multimodalCompletion, husage, hartifact, hcontentType, hresult,
          Option.bind_eq_bind, Option.bind_some, Option.pure_def]
      · have hlength : (multimodalCompletionOf request actualUsage artifact result).outputs.length =
            (sliceOffsets chunkSize artifact.length).length := length_chunkEvents _ _ _ _ _ _
        rw [hlength]
        repeat rw [List.nil_append]
        rfl

/-- The `except` clause does not touch a job that is over. -/
theorem completes_guarded {env : Env} {contractId : Str} {P : Option JobRecord → Prop}
    {body : Run Unit} {Q : List OutEvent → Str → Prop} (h : Completes env contractId P body Q) :
    Completes env contractId P (guarded contractId body) Q := by
  intro s hs hjob
  unfold guarded
  rw [wp_tryCatch]
  refine wp_mono (h s hs hjob) (fun _ s' h' => h') fun e s' h' => ?_
  rw [wp_bind, wp_get, wp_bind]
  cases hterminal : s'.terminal with
  | true =>
    rw [wp_only_neg (by simp)]
    exact fun _ => h' hterminal
  | false =>
    rw [wp_only_pos rfl]
    refine wp_mono (setStatus_spec _ s') (fun _ s'' h'' ht => ?_) ?_
    · exact absurd (h''.1.trans hterminal) (by rw [ht]; simp)
    · rintro _ _ rfl ht
      exact absurd (hterminal.symm.trans ht) (by simp)

/-- The byte limit of the Session. -/
def Env.maxBytes (env : Env) : ℕ :=
  (env.session.map fun r => r.session.transportPolicy.maxBytes).getD 0

theorem completes_bodyFor (env : Env) (request : InferenceRequest) (contract : Json.Object) :
    Completes env request.contractId (· ≠ none) (bodyFor env request contract)
      (SentFor env env.maxBytes request (completionOf env request) request.kind) := by
  unfold bodyFor completionOf
  cases hkind : request.kind
  · exact completes_textBody env env.maxBytes request
  · exact completes_audioBody env env.maxBytes request
  · exact completes_multimodalBody env env.maxBytes request _ _

/-- **A stream that reaches `job.completed`** has sent the events of its execution's
completion and has recorded its digest. -/
theorem streamFor_completes {env : Env} {request : InferenceRequest} {contract : Json.Object}
    {s : State} (hs : s.terminal = false) (hemitted : s.emitted = [])
    (hjob : s.jobs request.contractId ≠ none)
    (hdone : (final (streamFor env request contract) s).terminal = true) :
    Checked env env.maxBytes request.kind ∧ ∃ c, completionOf env request = some c ∧
      Framed env.floats (c.events request) (final (streamFor env request contract) s).emitted ∧
      Recorded c.digest ((final (streamFor env request contract) s).jobs request.contractId) := by
  have hcompletes : Completes env request.contractId (· ≠ none) (streamFor env request contract)
      fun events digest => Checked env env.maxBytes request.kind ∧
        ∃ c, completionOf env request = some c ∧ digest = c.digest ∧ events = c.events request := by
    rw [streamFor_eq]
    refine .bind (emits_yieldSse _ _) ?_
    rintro _ _ ⟨rfl, -⟩
    refine (completes_guarded (completes_bodyFor env request contract)).mono ?_
    rintro events digest ⟨hchecked, c, hc, hdigest, rfl⟩
    exact ⟨hchecked, c, hc, hdigest, rfl⟩
  have hwp : wp (streamFor env request contract)
      (fun _ s' => s'.terminal = true → ∃ events digest raws, (Checked env env.maxBytes request.kind ∧
        ∃ c, completionOf env request = some c ∧ digest = c.digest ∧ events = c.events request) ∧
        Framed env.floats events raws ∧ s'.emitted = s.emitted ++ raws ∧
        Recorded digest (s'.jobs request.contractId))
      (fun _ s' => s'.terminal = true → ∃ events digest raws, (Checked env env.maxBytes request.kind ∧
        ∃ c, completionOf env request = some c ∧ digest = c.digest ∧ events = c.events request) ∧
        Framed env.floats events raws ∧ s'.emitted = s.emitted ++ raws ∧
        Recorded digest (s'.jobs request.contractId)) s :=
    wp_mono (hcompletes s hs hjob) (fun _ _ h _ => h) fun _ _ h => h
  obtain ⟨_, _, raws, ⟨hchecked, c, hc, rfl, rfl⟩, hraws, hemitted', hdigest⟩ := wp_final.mp hwp hdone
  rw [hemitted, List.nil_append] at hemitted'
  exact ⟨hchecked, c, hc, hemitted'.symm ▸ hraws, hdigest⟩

end Provider

end AI2Apps.ModelSharing
