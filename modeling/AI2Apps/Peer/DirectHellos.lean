import AI2Apps.Peer.DirectBodies

/-!
# The hellos of the direct exchange arrive

Each hello is an object in a plain record; the other end reads the object that was written and
goes on with the message of the handshake in it.

* `WholeRecords`: bytes that are records within the limit.
* `Agree`, `Paired`: what the Noise handshake gives the two ends.
* `acceptHello_hello`, `finishHello_hello`: each hello is read as it was written.
-/

namespace AI2Apps.Peer.Direct

open Streams

/-- Bytes that are records, each as long as its header says and within the limit. -/
def WholeRecords (bytes : Bytes) : Prop :=
  ∃ values : List Bytes, bytes = values.flatten ∧ ∀ v ∈ values, WellFormed v

theorem wholeRecords_nil : WholeRecords [] := ⟨[], rfl, by simp⟩

variable {sessionId grant : Str} {object value written : Bytes}

theorem WholeRecords.of_wellFormed (h : WellFormed value) : WholeRecords value :=
  ⟨[value], by rw [List.flatten_singleton], fun _ hv => List.mem_singleton.mp hv ▸ h⟩

theorem WholeRecords.append {a b : Bytes} (ha : WholeRecords a) (hb : WholeRecords b) :
    WholeRecords (a ++ b) := by
  obtain ⟨xs, rfl, hxs⟩ := ha
  obtain ⟨ys, rfl, hys⟩ := hb
  exact ⟨xs ++ ys, List.flatten_append.symm, fun v hv => (List.mem_append.mp hv).elim (hxs v) (hys v)⟩

/-- The ciphers of the two ends are those of one handshake. -/
structure Paired (initiator responder : DirectNoiseState) : Prop where
  request : initiator.encrypt = responder.decrypt
  response : responder.encrypt = initiator.decrypt
  request_correct : responder.decrypt.Correct
  response_correct : initiator.decrypt.Correct

/-- A handshake that both ends complete, each on the message of the other, pairs them. -/
def Agree (t : DirectQuicTransport) (s : DirectQuicServer) : Prop :=
  ∀ first authorization responder response initiator, t.begin = .ok first →
    s.accept authorization first s.connectionId = .ok (responder, response) →
    t.finish response (.str s.connectionId) = .ok initiator → Paired initiator responder

variable {codec : Codec} {t : DirectQuicTransport} {s : DirectQuicServer}

/-! ## The hellos -/

theorem flat_helloObject {first : String} (hfirst : first = "grant" ∨ first = "connectionId")
    (name noiseMessage sessionId : Str) : Flat (helloObject first name noiseMessage sessionId) := by
  refine ⟨?_, ?_, ?_⟩
  · show ([str first, str "noiseMessage", str "protocolVersion", str "sessionId"] : List Str).Pairwise (· < ·)
    rcases hfirst with rfl | rfl <;> decide +kernel
  · show ∀ k ∈ ([str first, str "noiseMessage", str "protocolVersion", str "sessionId"] : List Str),
      ∀ c ∈ k, c < 0x80
    rcases hfirst with rfl | rfl <;> decide +kernel
  · intro p hp
    simp only [helloObject, List.mem_cons, List.not_mem_nil, or_false] at hp
    rcases hp with rfl | rfl | rfl | rfl
    exacts [.inl ⟨_, rfl⟩, .inl ⟨_, rfl⟩, .inr ⟨_, rfl⟩, .inl ⟨_, rfl⟩]

theorem keysEq_helloObject (name noiseMessage sessionId : Str) :
    Json.keysEq (helloObject "grant" name noiseMessage sessionId)
        (["grant", "noiseMessage", "protocolVersion", "sessionId"].map str) = true ∧
      Json.keysEq (helloObject "connectionId" name noiseMessage sessionId)
        (["connectionId", "noiseMessage", "protocolVersion", "sessionId"].map str) = true := by
  have hself : ∀ names : List Str, (names.all (fun k => k ∈ names) && names.all fun k => k ∈ names) = true := by
    intro names
    rw [Bool.and_self, List.all_eq_true]
    exact fun k hk => decide_eq_true hk
  exact ⟨hself _, hself _⟩

/-- What is written of a hello is read back as its object. -/
theorem reads_hello (hcodec : codec.Canonical) {type : DirectRecordType} {first : String}
    (hfirst : first = "grant" ∨ first = "connectionId") {name noiseMessage : Str}
    (hobject : canonicalJson codec (helloObject first name noiseMessage sessionId) = .ok object)
    (hvalue : plainRecord type object = .ok value) {fields : List String}
    (hfields : Json.keysEq (helloObject first name noiseMessage sessionId) (fields.map str) = true) :
    WellFormed value ∧ ∃ record : DirectRecord, record.recordType = type ∧
      Reads (.direct endedEarly) nextRecord.read value record ∧
      decodeObject codec record.payload fields =
        .ok (helloObject first name noiseMessage sessionId) := by
  obtain ⟨header, hwf, hread⟩ := reads_plainRecord hvalue
  exact ⟨hwf, ⟨type, header, object⟩, rfl, hread.mapError Raised.direct,
    decodeObject_of_canonicalJson hcodec (flat_helloObject hfirst _ _ _) hobject fields hfields⟩

/-- The fields of a hello. -/
theorem field_helloObject (first : String) (hfirst : first = "grant" ∨ first = "connectionId")
    (name noiseMessage sessionId : Str) :
    field (helloObject first name noiseMessage sessionId) first = .str name ∧
      field (helloObject first name noiseMessage sessionId) "noiseMessage" = .str noiseMessage ∧
      field (helloObject first name noiseMessage sessionId) "protocolVersion" = .int 1 ∧
      field (helloObject first name noiseMessage sessionId) "sessionId" = .str sessionId := by
  have h₁ : str first ≠ str "noiseMessage" := by rcases hfirst with rfl | rfl <;> decide +kernel
  have h₂ : str first ≠ str "protocolVersion" := by rcases hfirst with rfl | rfl <;> decide +kernel
  have h₃ : str first ≠ str "sessionId" := by rcases hfirst with rfl | rfl <;> decide +kernel
  have h₄ : str "noiseMessage" ≠ str "protocolVersion" := by decide +kernel
  have h₅ : str "noiseMessage" ≠ str "sessionId" := by decide +kernel
  have h₆ : str "protocolVersion" ≠ str "sessionId" := by decide +kernel
  simp [field, helloObject, Json.lookup, h₁, h₂, h₃, h₄, h₅, h₆]

/-- The answer to a Client Hello with this grant, session and message. -/
def answerHello (codec : Codec) (s : DirectQuicServer) (grant sessionId : Str) (message : Bytes) :
    Except Raised (DirectAuthorization × DirectNoiseState × Bytes) := do
  let authorization ← s.authorize grant (.str sessionId)
  let (state, response) ← s.accept authorization message s.connectionId
  let object ← canonicalJson codec
    (helloObject "connectionId" s.connectionId (b64urlEncode response) authorization.session.sessionId)
  let written ← (plainRecord .serverHello object).mapError .direct
  return (authorization, state, written)

/-- **The Client Hello arrives.** -/
theorem acceptHello_hello (hcodec : codec.Canonical) {hello : Bytes}
    (h : clientHello codec t grant = .ok hello) :
    WellFormed hello ∧ ∃ first record, t.begin = .ok first ∧
      Reads (.direct endedEarly) nextRecord.read hello record ∧
      acceptHello codec s record = answerHello codec s grant t.sessionId first := by
  unfold clientHello at h
  cases hbegin : t.begin with
  | error e =>
    rw [hbegin] at h
    cases h
  | ok first =>
    rw [hbegin] at h
    cases hobject : canonicalJson codec (helloObject "grant" grant (b64urlEncode first) t.sessionId) with
    | error e =>
      simp only [bind, Except.bind, hobject] at h
      cases h
    | ok object =>
      cases hvalue : plainRecord .clientHello object with
      | error e =>
        simp only [bind, Except.bind, hobject, hvalue] at h
        cases h
      | ok value =>
        simp only [bind, Except.bind, hobject, hvalue] at h
        cases h
        obtain ⟨hwf, record, htype, hread, hdecode⟩ := reads_hello hcodec (.inl rfl) hobject hvalue
          (keysEq_helloObject _ _ _).1
        refine ⟨hwf, first, record, rfl, hread, ?_⟩
        obtain ⟨hgrant, hmessage, hversion, hsession⟩ :=
          field_helloObject "grant" (.inl rfl) grant (b64urlEncode first) t.sessionId
        unfold acceptHello
        rw [if_neg (by rw [htype]; simp), hdecode]
        simp only [bind, Except.bind, pure, Except.pure, hgrant, hmessage, hversion, hsession,
          b64urlDecode_b64urlEncode, show Json.pyEq (.int 1) (.int 1) = true from rfl]
        rfl

theorem clientHello_of_ok {first : Bytes} (hbegin : t.begin = .ok first)
    (hobject : canonicalJson codec (helloObject "grant" grant (b64urlEncode first) t.sessionId) = .ok object)
    (hvalue : plainRecord .clientHello object = .ok value) : clientHello codec t grant = .ok value := by
  unfold clientHello
  rw [hbegin]
  simp only [bind, Except.bind, hobject, hvalue]
  rfl

theorem answerHello_of_ok {message response : Bytes} {authorization : DirectAuthorization}
    {state : DirectNoiseState} (hauthorize : s.authorize grant (.str sessionId) = .ok authorization)
    (haccept : s.accept authorization message s.connectionId = .ok (state, response))
    (hobject : canonicalJson codec (helloObject "connectionId" s.connectionId (b64urlEncode response)
      authorization.session.sessionId) = .ok object)
    (hwritten : plainRecord .serverHello object = .ok written) :
    answerHello codec s grant sessionId message = .ok (authorization, state, written) := by
  unfold answerHello
  rw [hauthorize]
  simp only [bind, Except.bind, haccept, hobject, hwritten]
  rfl

/-- What an answered Client Hello was answered with. -/
theorem answerHello_ok {message : Bytes} {authorization : DirectAuthorization} {state : DirectNoiseState}
    (h : answerHello codec s grant sessionId message = .ok (authorization, state, written)) :
    s.authorize grant (.str sessionId) = .ok authorization ∧
      ∃ response object, s.accept authorization message s.connectionId = .ok (state, response) ∧
        canonicalJson codec (helloObject "connectionId" s.connectionId (b64urlEncode response)
          authorization.session.sessionId) = .ok object ∧
        plainRecord .serverHello object = .ok written := by
  unfold answerHello at h
  cases hauth : s.authorize grant (.str sessionId) with
  | error e =>
    rw [hauth] at h
    cases h
  | ok a =>
    rw [hauth] at h
    cases haccept : s.accept a message s.connectionId with
    | error e =>
      simp only [bind, Except.bind, haccept] at h
      cases h
    | ok r =>
      obtain ⟨st, response⟩ := r
      simp only [bind, Except.bind, haccept] at h
      cases hobject : canonicalJson codec (helloObject "connectionId" s.connectionId
        (b64urlEncode response) a.session.sessionId) with
      | error e =>
        simp only [hobject] at h
        cases h
      | ok object =>
        simp only [hobject] at h
        cases hvalue : plainRecord .serverHello object with
        | error e =>
          simp only [hvalue] at h
          cases h
        | ok value =>
          simp only [hvalue] at h
          cases h
          exact ⟨rfl, response, object, haccept, hobject, hvalue⟩

/-- **The Server Hello arrives.** -/
theorem finishHello_hello (hcodec : codec.Canonical) {connectionId : Str} {response : Bytes}
    (hobject : canonicalJson codec
      (helloObject "connectionId" connectionId (b64urlEncode response) sessionId) = .ok object)
    (hwritten : plainRecord .serverHello object = .ok written) :
    WellFormed written ∧ ∃ record, Reads (.direct endedEarly) nextRecord.read written record ∧
      finishHello codec t record =
        if sessionId = t.sessionId then t.finish response (.str connectionId)
        else .error (.direct ⟨"DIRECT_NOISE_REJECTED", "Server Hello binding is invalid."⟩) := by
  obtain ⟨hwf, record, htype, hread, hdecode⟩ := reads_hello hcodec (.inr rfl) hobject hwritten
    (keysEq_helloObject _ _ _).2
  refine ⟨hwf, record, hread, ?_⟩
  obtain ⟨hconnection, hmessage, hversion, hsession⟩ :=
    field_helloObject "connectionId" (.inr rfl) connectionId (b64urlEncode response) sessionId
  have heq : Json.pyEq (.str sessionId) (.str t.sessionId) = (sessionId == t.sessionId) := rfl
  unfold finishHello
  rw [if_neg (by rw [htype]; simp), hdecode]
  simp only [bind, Except.bind, hconnection, hmessage, hversion, hsession,
    b64urlDecode_b64urlEncode, heq, show Json.pyEq (.int 1) (.int 1) = true from rfl]
  by_cases hid : sessionId = t.sessionId
  · simp [hid]
  · simp [hid]
    rfl

end AI2Apps.Peer.Direct
