import AI2Apps.Peer.DirectResponses

/-!
# The direct exchange gives back what was sent

Whatever beginning of each stream reaches the other end, the handler is given the path and the
payload that were sent or nothing, and a response that ends without an error is the handler's
answer.  Where nothing is cut and nothing is over a limit, both arrive.

* `Established`: both hellos have arrived.
* `exchange_cases`: either they have, or neither end goes on.
* `direct_round_trip`: the exchange.
-/

namespace AI2Apps.Peer.Direct

open Streams

variable {codec : Codec} {t : DirectQuicTransport} {s : DirectQuicServer}
  {initiator responder : DirectNoiseState} {authorization : DirectAuthorization}
  {path grant : Str} {payload : Bytes} {maxResponseBytes : ℕ} {sent answered : Bytes}

/-! ## After the hellos -/

/-- What the responder does after the hellos. -/
def handledAfter (codec : Codec) (s : DirectQuicServer) (authorization : DirectAuthorization)
    (state : DirectNoiseState) (serverHello input : Bytes) : Handled :=
  match readRequest codec authorization state input with
  | .error _ => ⟨serverHello, none⟩
  | .ok (path, content) =>
    match s.handler authorization path content with
    | .error _ => ⟨serverHello, some (path, content)⟩
    | .ok result => ⟨serverHello ++ respond codec state result, some (path, content)⟩

/-- What the initiator does after the hellos. -/
def postedAfter (codec : Codec) (state : DirectNoiseState) (hello : Bytes) (path : Str) (payload : Bytes)
    (maxResponseBytes : ℕ) (input : Bytes) : Posted :=
  match writeRequest codec state path payload with
  | (written, some e) => ⟨hello ++ written, .error (failed false e)⟩
  | (written, none) => ⟨hello ++ written, readResponse codec state maxResponseBytes input⟩

theorem handledAfter_written (codec : Codec) (s : DirectQuicServer) (authorization : DirectAuthorization)
    (state : DirectNoiseState) (serverHello input : Bytes) :
    ∃ more, (handledAfter codec s authorization state serverHello input).written = serverHello ++ more := by
  unfold handledAfter
  split
  · exact ⟨[], (List.append_nil _).symm⟩
  · split
    · exact ⟨[], (List.append_nil _).symm⟩
    · exact ⟨_, rfl⟩

theorem postedAfter_written (codec : Codec) (state : DirectNoiseState) (hello : Bytes) (path : Str)
    (payload : Bytes) (maxResponseBytes : ℕ) (input : Bytes) :
    (postedAfter codec state hello path payload maxResponseBytes input).written =
      hello ++ (writeRequest codec state path payload).1 := by
  unfold postedAfter
  split <;> rename_i h <;> rw [h]

theorem postedAfter_of_none {state : DirectNoiseState} {hello input : Bytes}
    (h : (writeRequest codec state path payload).2 = none) :
    postedAfter codec state hello path payload maxResponseBytes input =
      ⟨hello ++ (writeRequest codec state path payload).1,
        readResponse codec state maxResponseBytes input⟩ := by
  unfold postedAfter
  split <;> rename_i heq <;> rw [heq] at h ⊢
  cases h

/-! ## The hellos -/

theorem handleStream_of_record {hello l : Bytes} {record : DirectRecord}
    (hread : Reads (.direct endedEarly) nextRecord.read hello record) :
    handleStream codec s (hello ++ l) =
      match acceptHello codec s record with
      | .error _ => ⟨[], none⟩
      | .ok (authorization, state, written) => handledAfter codec s authorization state written l := by
  rw [handleStream, hread.whole]
  rfl

theorem postStream_of_hello {hello input : Bytes} (hgrant : grant = t.grant)
    (hhello : clientHello codec t grant = .ok hello) :
    postStream codec t path grant payload maxResponseBytes input =
      match nextRecord.read input with
      | .error e => ⟨hello, .error (failed false e)⟩
      | .ok (record, input) =>
        match finishHello codec t record with
        | .error e => ⟨hello, .error (failed false e)⟩
        | .ok state => postedAfter codec state hello path payload maxResponseBytes input := by
  rw [postStream, if_neg (not_not.mpr hgrant), hhello]
  rfl

/-- The initiator writes its hello first. -/
theorem postStream_written {hello input : Bytes} (hgrant : grant = t.grant)
    (hhello : clientHello codec t grant = .ok hello) :
    ∃ more, (postStream codec t path grant payload maxResponseBytes input).written = hello ++ more := by
  rw [postStream_of_hello hgrant hhello]
  split
  · exact ⟨[], (List.append_nil _).symm⟩
  · split
    · exact ⟨[], (List.append_nil _).symm⟩
    · exact ⟨_, postedAfter_written _ _ _ _ _ _ _⟩

/-- Both hellos have arrived, and what follows them on each stream is `request` and
`response`. -/
structure Established (codec : Codec) (t : DirectQuicTransport) (s : DirectQuicServer) (path grant : Str)
    (payload : Bytes) (maxResponseBytes : ℕ) (sent answered : Bytes)
    (authorization : DirectAuthorization) (initiator responder : DirectNoiseState)
    (hello serverHello request response : Bytes) : Prop where
  paired : Paired initiator responder
  hello_wellFormed : WellFormed hello
  serverHello_wellFormed : WellFormed serverHello
  sent_eq : sent = hello ++ request
  answered_eq : answered = serverHello ++ response
  authorized : s.authorize grant (.str t.sessionId) = .ok authorization
  posted : postStream codec t path grant payload maxResponseBytes answered =
    postedAfter codec initiator hello path payload maxResponseBytes response
  handled : handleStream codec s sent = handledAfter codec s authorization responder serverHello request

/-- Neither end goes on. -/
structure Abandoned (codec : Codec) (t : DirectQuicTransport) (s : DirectQuicServer) (path grant : Str)
    (payload : Bytes) (maxResponseBytes : ℕ) (sent answered : Bytes) : Prop where
  posted : ∃ e, (postStream codec t path grant payload maxResponseBytes answered).result = .error e
  handled : (handleStream codec s sent).request = none
  posted_records : WholeRecords (postStream codec t path grant payload maxResponseBytes answered).written
  handled_records : WholeRecords (handleStream codec s sent).written

theorem nextRecord_nil : nextRecord.read [] = .error (.direct endedEarly) := rfl

theorem handleStream_nil : handleStream codec s [] = ⟨[], none⟩ := by
  rw [handleStream, nextRecord_nil]

theorem readRequest_nil : readRequest codec authorization responder [] = .error (.direct endedEarly) := by
  rw [readRequest, nextRecord_nil]
  rfl

theorem readResponse_nil : ∃ e, readResponse codec initiator maxResponseBytes [] = .error e := by
  refine ⟨failed true (.direct endedEarly), ?_⟩
  rw [readResponse, nextRecord_nil]
  rfl

/-- An initiator that is not answered raises. -/
theorem postedAfter_nil {hello : Bytes} :
    ∃ e, (postedAfter codec initiator hello path payload maxResponseBytes []).result = .error e := by
  unfold postedAfter
  split
  · exact ⟨_, rfl⟩
  · exact readResponse_nil

/-- An initiator that writes nothing is not answered. -/
theorem abandoned_of_nil {e : Raised}
    (hposted : postStream codec t path grant payload maxResponseBytes answered = ⟨[], .error e⟩)
    (hsent : sent <+: (postStream codec t path grant payload maxResponseBytes answered).written) :
    Abandoned codec t s path grant payload maxResponseBytes sent answered := by
  rw [hposted] at hsent
  obtain rfl := List.prefix_nil.mp hsent
  exact ⟨⟨e, by rw [hposted]⟩, by rw [handleStream_nil], by rw [hposted]; exact wholeRecords_nil,
    by rw [handleStream_nil]; exact wholeRecords_nil⟩

/-- **Either both hellos arrive or neither end goes on.** -/
theorem exchange_cases (hcodec : codec.Canonical) (hnoise : Agree t s)
    (hsent : sent <+: (postStream codec t path grant payload maxResponseBytes answered).written)
    (hanswered : answered <+: (handleStream codec s sent).written) :
    Abandoned codec t s path grant payload maxResponseBytes sent answered ∨
      ∃ authorization initiator responder hello serverHello request response,
        Established codec t s path grant payload maxResponseBytes sent answered authorization
          initiator responder hello serverHello request response := by
  by_cases hgrant : grant = t.grant
  swap
  · exact .inl (abandoned_of_nil (by rw [postStream, if_pos hgrant]) hsent)
  cases hhello : clientHello codec t grant with
  | error e => exact .inl (abandoned_of_nil (by rw [postStream, if_neg (not_not.mpr hgrant), hhello]) hsent)
  | ok hello =>
    obtain ⟨hhelloWf, first, record, hbegin, hread, haccept⟩ :=
      acceptHello_hello (s := s) hcodec hhello
    have hposted : postStream codec t path grant payload maxResponseBytes answered = _ :=
      postStream_of_hello hgrant hhello
    -- Where the initiator stops at the Server Hello, the responder reads no request.
    have habandoned : ∀ e, postStream codec t path grant payload maxResponseBytes answered =
        ⟨hello, .error e⟩ → (handleStream codec s sent).request = none →
        WholeRecords (handleStream codec s sent).written →
        Abandoned codec t s path grant payload maxResponseBytes sent answered := by
      intro e heq hrequest hrecords
      exact ⟨⟨e, by rw [heq]⟩, hrequest, by rw [heq]; exact .of_wellFormed hhelloWf, hrecords⟩
    have hunanswered : handleStream codec s sent = ⟨[], none⟩ →
        Abandoned codec t s path grant payload maxResponseBytes sent answered := by
      intro heq
      rw [heq] at hanswered
      obtain rfl := List.prefix_nil.mp hanswered
      rw [nextRecord_nil] at hposted
      exact habandoned _ hposted (by rw [heq]) (by rw [heq]; exact wholeRecords_nil)
    have hwrites : ∃ more, (postStream codec t path grant payload maxResponseBytes answered).written =
        hello ++ more := postStream_written hgrant hhello
    obtain ⟨more, hmore⟩ := hwrites
    have hsent' := hsent
    rw [hmore] at hsent'
    rcases hread.of_beginning hsent' with herror | ⟨request, rfl, -, -⟩
    · exact .inl (hunanswered (by rw [handleStream, herror]))
    have hhandled : handleStream codec s (hello ++ request) = _ := handleStream_of_record hread
    rw [haccept] at hhandled
    cases hanswer : answerHello codec s grant t.sessionId first with
    | error e =>
      rw [hanswer] at hhandled
      exact .inl (hunanswered hhandled)
    | ok r =>
      obtain ⟨authorization, responder, serverHello⟩ := r
      rw [hanswer] at hhandled
      dsimp only at hhandled
      obtain ⟨hauthorized, response, object, haccepted, hobject, hwritten⟩ := answerHello_ok hanswer
      obtain ⟨hserverWf, record', hread', hfinish⟩ := finishHello_hello (t := t) hcodec hobject hwritten
      -- An initiator that stops at its hello sends no request.
      have hstopped : ∀ e, postStream codec t path grant payload maxResponseBytes answered =
          ⟨hello, .error e⟩ →
          Abandoned codec t s path grant payload maxResponseBytes (hello ++ request) answered := by
        intro e heq
        rw [heq] at hsent
        have hnil : request = [] := by
          have hlen := hsent.length_le
          dsimp only at hlen
          rw [List.length_append] at hlen
          exact List.eq_nil_of_length_eq_zero (by omega)
        subst hnil
        rw [handledAfter, readRequest_nil] at hhandled
        exact habandoned e heq (by rw [hhandled]) (by rw [hhandled]; exact .of_wellFormed hserverWf)
      obtain ⟨more', hmore'⟩ := handledAfter_written codec s authorization responder serverHello request
      have hanswered' := hanswered
      rw [hhandled, hmore'] at hanswered'
      rcases hread'.of_beginning hanswered' with herror | ⟨answer, rfl, -, hok⟩
      · rw [herror] at hposted
        exact .inl (hstopped _ hposted)
      rw [hok] at hposted
      dsimp only at hposted
      rw [hfinish] at hposted
      split_ifs at hposted
      · cases hstate : t.finish response (.str s.connectionId) with
        | error e =>
          rw [hstate] at hposted
          exact .inl (hstopped _ hposted)
        | ok initiator =>
          rw [hstate] at hposted
          exact .inr ⟨authorization, initiator, responder, hello, serverHello, request, answer,
            hnoise first authorization responder response initiator hbegin haccepted hstate, hhelloWf,
            hserverWf, rfl, rfl, hauthorized, hposted, hhandled⟩
      · exact .inl (hstopped _ hposted)

/-! ## The exchange -/

theorem wholeRecords_writeRecords {c : CipherState} (hc : c.Correct) (n : ℕ)
    (list : List (DirectRecordType × Bytes)) : WholeRecords (writeRecords c n list).1 :=
  wellFormed_writeRecords hc n list

theorem wholeRecords_writeRequest {c : DirectNoiseState} (hc : c.encrypt.Correct) (path : Str)
    (payload : Bytes) : WholeRecords (writeRequest codec c path payload).1 := by
  unfold writeRequest
  split
  · exact wholeRecords_nil
  · exact wholeRecords_writeRecords hc 0 _

theorem wholeRecords_respond {c : DirectNoiseState} (hc : c.encrypt.Correct) (result : HandlerResult) :
    WholeRecords (respond codec c result) := by
  rw [respond_eq]
  split_ifs
  · split
    · exact wholeRecords_nil
    · exact wholeRecords_writeRecords hc 0 _
  · exact wholeRecords_nil

/-- What is asked for an exchange in which both the request and the response arrive. -/
structure Accepted (codec : Codec) (t : DirectQuicTransport) (s : DirectQuicServer) (path grant : Str)
    (payload : Bytes) (maxResponseBytes : ℕ) (authorization : DirectAuthorization)
    (initiator responder : DirectNoiseState) (result : HandlerResult) : Prop where
  grant_eq : grant = t.grant
  hello : ∃ hello, clientHello codec t grant = .ok hello
  handshake : ∃ first response serverHello, t.begin = .ok first ∧
    answerHello codec s grant t.sessionId first = .ok (authorization, responder, serverHello) ∧
    s.accept authorization first s.connectionId = .ok (responder, response) ∧
    t.finish response (.str s.connectionId) = .ok initiator
  session_eq : authorization.session.sessionId = t.sessionId
  request_fits : ∃ head, canonicalJson codec (requestHeadObject path) = .ok head ∧ head.length ≤ sliceSize
  route : path ∈ routes
  payload_le : payload.length ≤ authorization.session.transportPolicy.maxBytes
  handler : s.handler authorization path payload = .ok result
  contentType : result.contentType ∈ contentTypes
  response_fits : ∃ head, canonicalJson codec (responseHeadObject result) = .ok head ∧ head.length ≤ sliceSize
  ends : result.ends = true
  content_le : result.content.length ≤ maxResponseBytes

/-- A request whose head fits is written. -/
theorem writeRequest_of_fits {state : DirectNoiseState} {path : Str} {payload head : Bytes}
    (hhead : canonicalJson codec (requestHeadObject path) = .ok head) (hlen : head.length ≤ sliceSize) :
    (writeRequest codec state path payload).2 = none := by
  rcases writeRequest_cases codec state path payload with ⟨e, heq⟩ | ⟨head', value, -, -, heq⟩
  · obtain ⟨value, hvalue⟩ := encryptRecord_isOk state.encrypt 0 head (t := .requestHead)
      ⟨by simp, by simp⟩ hlen
    have hwrite := writeRequest_eq codec state path payload
    rw [hhead] at hwrite
    dsimp only at hwrite
    rw [writeRecords_cons hvalue, heq] at hwrite
    obtain ⟨header, hheader, rfl⟩ := encryptRecord_eq_ok hvalue
    have hnil := (Prod.mk.inj hwrite).1
    have hheaderLen := length_recordHeader hheader
    rw [(List.append_eq_nil_iff.mp (List.append_eq_nil_iff.mp hnil.symm).1).1] at hheaderLen
    cases hheaderLen
  · rw [heq]

/-- **A complete exchange.** Two streams of which nothing is cut, the request that arrives and
the response that arrives. -/
theorem exchange_of_accepted (hcodec : codec.Canonical) (hnoise : Agree t s) {result : HandlerResult}
    (h : Accepted codec t s path grant payload maxResponseBytes authorization initiator responder result) :
    ∃ sent answered, (postStream codec t path grant payload maxResponseBytes answered).written = sent ∧
      (handleStream codec s sent).written = answered ∧
      ∀ sent' answered', sent' = (postStream codec t path grant payload maxResponseBytes answered').written →
        answered' = (handleStream codec s sent').written →
        (handleStream codec s sent').request = some (path, payload) ∧
          (postStream codec t path grant payload maxResponseBytes answered').result =
            .ok ⟨result.statusCode, .str result.contentType, (result.slices, none)⟩ := by
  obtain ⟨hello, hhello⟩ := h.hello
  obtain ⟨first, response, serverHello, hbegin, hanswer, haccepted, hstate⟩ := h.handshake
  obtain ⟨head, hhead, hlen⟩ := h.request_fits
  obtain ⟨head', hhead', hlen'⟩ := h.response_fits
  have hpaired := hnoise first authorization responder response initiator hbegin haccepted hstate
  obtain ⟨-, first', record, hbegin', hread, haccept⟩ := acceptHello_hello (s := s) hcodec hhello
  obtain rfl := Except.ok.inj (hbegin.symm.trans hbegin')
  obtain ⟨-, response', object, haccepted', hobject, hwritten⟩ := answerHello_ok hanswer
  obtain ⟨-, rfl⟩ := Prod.mk.inj (Except.ok.inj (haccepted.symm.trans haccepted'))
  obtain ⟨-, record', hread', hfinish⟩ := finishHello_hello (t := t) hcodec hobject hwritten
  rw [if_pos h.session_eq, hstate] at hfinish
  -- Each end goes on after the hello of the other.
  have hhandled : ∀ l, handleStream codec s (hello ++ l) =
      handledAfter codec s authorization responder serverHello l := by
    intro l
    rw [handleStream_of_record hread, haccept, hanswer]
  have hposted : ∀ l, postStream codec t path grant payload maxResponseBytes (serverHello ++ l) =
      postedAfter codec initiator hello path payload maxResponseBytes l := by
    intro l
    rw [postStream_of_hello h.grant_eq hhello, hread'.whole]
    dsimp only
    rw [hfinish]
  have hrequest : (writeRequest codec initiator path payload).2 = none := writeRequest_of_fits hhead hlen
  have hanswered : handledAfter codec s authorization responder serverHello
      (writeRequest codec initiator path payload).1 =
        ⟨serverHello ++ respond codec responder result, some (path, payload)⟩ := by
    rw [handledAfter, readRequest_whole hcodec hpaired hrequest h.route h.payload_le]
    dsimp only
    rw [h.handler]
  refine ⟨hello ++ (writeRequest codec initiator path payload).1,
    serverHello ++ respond codec responder result, ?_, ?_, fun sent' answered' hsent' hanswered' => ?_⟩
  · rw [hposted, postedAfter_written]
  · rw [hhandled, hanswered]
  · obtain ⟨more, hmore⟩ : ∃ more, (postStream codec t path grant payload maxResponseBytes
        answered').written = hello ++ more := postStream_written h.grant_eq hhello
    rw [hmore] at hsent'
    subst hsent'
    obtain ⟨more', hmore'⟩ := handledAfter_written codec s authorization responder serverHello more
    rw [hhandled, hmore'] at hanswered'
    subst hanswered'
    rw [hposted, postedAfter_written] at hmore
    obtain rfl := List.append_cancel_left hmore
    rw [hanswered] at hmore'
    obtain rfl := List.append_cancel_left hmore'
    refine ⟨by rw [hhandled, hanswered], ?_⟩
    rw [hposted, postedAfter_of_none hrequest]
    exact readResponse_whole hcodec hpaired h.contentType hhead' hlen' h.ends h.content_le

/-- What a body of pieces on the wire is: records within the limit, read back as the pieces,
and an error wherever it is cut. -/
structure Framed (c : CipherState) (n : ℕ) (body last : DirectRecordType) (limit : ℕ) (exceeded : Raised)
    (chunks : List Bytes) : Prop where
  records : WholeRecords (bodyWire c n body last (chunks.flatMap (slices sliceSize)))
  pieces : (chunks.flatMap (slices sliceSize)).flatten = chunks.flatten
  whole : chunks.flatten.length ≤ limit → ∀ rest, readBody c body last limit exceeded n
    (bodyWire c n body last (chunks.flatMap (slices sliceSize)) ++ rest) =
      (chunks.flatMap (slices sliceSize), .ok rest)
  cut : ∀ l rest, l ++ rest = bodyWire c n body last (chunks.flatMap (slices sliceSize)) → rest ≠ [] →
    ∃ items e, readBody c body last limit exceeded n l = (items, .error e) ∧
      items <+: chunks.flatMap (slices sliceSize)

/-- What the two ends make of the beginnings `sent` and `answered` of what the other writes. -/
structure Delivered (codec : Codec) (t : DirectQuicTransport) (s : DirectQuicServer) (path grant : Str)
    (payload : Bytes) (maxResponseBytes : ℕ) (sent answered : Bytes) : Prop where
  posted_records : WholeRecords (postStream codec t path grant payload maxResponseBytes answered).written
  handled_records : WholeRecords (handleStream codec s sent).written
  /-- The handler is given the whole request or nothing. -/
  request : ∀ p content, (handleStream codec s sent).request = some (p, content) → p = path ∧
    content = payload ∧ sent = (postStream codec t path grant payload maxResponseBytes answered).written
  /-- A response is the handler's; its body ends without an error only as a whole. -/
  response : ∀ response, (postStream codec t path grant payload maxResponseBytes answered).result =
      .ok response →
    ∃ authorization result, s.authorize grant (.str t.sessionId) = .ok authorization ∧
      s.handler authorization path payload = .ok result ∧
      (handleStream codec s sent).request = some (path, payload) ∧
      response.statusCode = result.statusCode ∧ response.contentType = .str result.contentType ∧
      response.body.1 <+: result.slices ∧
      (response.body.2 = none → response.body.1.flatten = result.content ∧ result.ends = true ∧
        answered = (handleStream codec s sent).written)
  /-- Without a cut, and within the limits, both arrive. -/
  complete : ∀ authorization initiator responder result,
    Accepted codec t s path grant payload maxResponseBytes authorization initiator responder result →
    sent = (postStream codec t path grant payload maxResponseBytes answered).written →
    answered = (handleStream codec s sent).written →
    (handleStream codec s sent).request = some (path, payload) ∧
      ∃ response, (postStream codec t path grant payload maxResponseBytes answered).result = .ok response ∧
        response.statusCode = result.statusCode ∧ response.contentType = .str result.contentType ∧
        response.body.1.flatten = result.content ∧ response.body.2 = none

theorem framed {c : CipherState} (hc : c.Correct) (n : ℕ) {body last : DirectRecordType}
    (hbody : Transported body) (hlast : Transported last) (hne : body ≠ last) (limit : ℕ)
    (exceeded : Raised) (chunks : List Bytes) : Framed c n body last limit exceeded chunks where
  records := wholeRecords_writeRecords hc n _
  pieces := flatten_flatMap_slices chunks
  whole hlimit rest := readBody_whole limit exceeded n hc hbody hlast hne
    (fun _ => length_le_of_mem_flatMap_slices) (by rw [flatten_flatMap_slices]; exact hlimit) rest
  cut _ _ hl hrest := readBody_cut limit exceeded n hc hbody hlast hne
    (fun _ => length_le_of_mem_flatMap_slices) hl hrest

theorem delivered (hcodec : codec.Canonical) (hnoise : Agree t s)
    (hsent : sent <+: (postStream codec t path grant payload maxResponseBytes answered).written)
    (hanswered : answered <+: (handleStream codec s sent).written) :
    Delivered codec t s path grant payload maxResponseBytes sent answered := by
  have hcomplete : ∀ authorization initiator responder result,
      Accepted codec t s path grant payload maxResponseBytes authorization initiator responder result →
      sent = (postStream codec t path grant payload maxResponseBytes answered).written →
      answered = (handleStream codec s sent).written →
      (handleStream codec s sent).request = some (path, payload) ∧
        ∃ response, (postStream codec t path grant payload maxResponseBytes answered).result = .ok response ∧
          response.statusCode = result.statusCode ∧ response.contentType = .str result.contentType ∧
          response.body.1.flatten = result.content ∧ response.body.2 = none := by
    intro authorization initiator responder result haccepted hs ha
    obtain ⟨-, -, -, -, harrives⟩ := exchange_of_accepted hcodec hnoise haccepted
    obtain ⟨hrequest, hresult⟩ := harrives sent answered hs ha
    exact ⟨hrequest, _, hresult, rfl, rfl, flatten_handlerSlices result, rfl⟩
  rcases exchange_cases hcodec hnoise hsent hanswered with
    habandoned | ⟨authorization, initiator, responder, hello, serverHello, request, answer, h⟩
  · obtain ⟨⟨e, he⟩, hrequest, hposted, hhandled⟩ := habandoned
    exact ⟨hposted, hhandled, by rw [hrequest]; exact nofun, by rw [he]; exact nofun, hcomplete⟩
  · have hpaired := h.paired
    have hrequest : request <+: (writeRequest codec initiator path payload).1 := by
      rw [h.posted, h.sent_eq, postedAfter_written] at hsent
      exact (List.prefix_append_right_inj hello).mp hsent
    have hposted : WholeRecords (postStream codec t path grant payload maxResponseBytes answered).written := by
      rw [h.posted, postedAfter_written]
      exact (WholeRecords.of_wellFormed h.hello_wellFormed).append
        (wholeRecords_writeRequest (hpaired.request ▸ hpaired.request_correct) path payload)
    -- An answer that stops at the Server Hello is none.
    have hunanswered : (handleStream codec s sent).written = serverHello →
        ∀ response, (postStream codec t path grant payload maxResponseBytes answered).result ≠ .ok response := by
      intro hwritten response
      have hnil : answer = [] := by
        rw [hwritten, h.answered_eq] at hanswered
        have hlen := hanswered.length_le
        rw [List.length_append] at hlen
        exact List.eq_nil_of_length_eq_zero (by omega)
      obtain ⟨e, he⟩ : ∃ e, (postedAfter codec initiator hello path payload maxResponseBytes []).result =
        .error e := postedAfter_nil
      rw [h.posted, hnil, he]
      exact nofun
    have hhandled := h.handled
    unfold handledAfter at hhandled
    cases hread : readRequest codec authorization responder request with
    | error e =>
      rw [hread] at hhandled
      exact ⟨hposted, by rw [hhandled]; exact .of_wellFormed h.serverHello_wellFormed,
        by rw [hhandled]; exact nofun,
        fun response hok => absurd hok (hunanswered (by rw [hhandled]) response), hcomplete⟩
    | ok r =>
      obtain ⟨p, content⟩ := r
      obtain ⟨rfl, rfl, rfl, hnone⟩ := readRequest_ok hcodec hpaired hrequest hread
      rw [hread] at hhandled
      dsimp only at hhandled
      have hwhole : sent = (postStream codec t p grant content maxResponseBytes answered).written := by
        rw [h.posted, h.sent_eq, postedAfter_written]
      cases hhandler : s.handler authorization p content with
      | error e =>
        rw [hhandler] at hhandled
        refine ⟨hposted, by rw [hhandled]; exact .of_wellFormed h.serverHello_wellFormed, ?_,
          fun response hok => absurd hok (hunanswered (by rw [hhandled]) response), hcomplete⟩
        rw [hhandled]
        rintro p' content' ⟨⟩
        exact ⟨rfl, rfl, hwhole⟩
      | ok result =>
        rw [hhandler] at hhandled
        dsimp only at hhandled
        have hanswer : answer <+: respond codec responder result := by
          rw [hhandled, h.answered_eq] at hanswered
          exact (List.prefix_append_right_inj serverHello).mp hanswered
        have hrecords : WholeRecords (handleStream codec s sent).written := by
          rw [hhandled]
          exact (WholeRecords.of_wellFormed h.serverHello_wellFormed).append
            (wholeRecords_respond (hpaired.response ▸ hpaired.response_correct) result)
        refine ⟨hposted, hrecords, ?_, fun response hok => ?_, hcomplete⟩
        · rw [hhandled]
          rintro p' content' ⟨⟩
          exact ⟨rfl, rfl, hwhole⟩
        · rw [h.posted, postedAfter_of_none hnone] at hok
          obtain ⟨hstatus, htype, hchunks, hend⟩ := readResponse_ok hcodec hpaired hanswer hok
          refine ⟨authorization, result, h.authorized, hhandler, by rw [hhandled], hstatus, htype,
            hchunks, fun hbody => ?_⟩
          obtain ⟨hslices, rfl, hends⟩ := hend hbody
          exact ⟨by rw [hslices, flatten_handlerSlices], hends, by rw [hhandled, h.answered_eq]⟩

/-- A response that `post` returns is the whole answer of the handler. -/
theorem post_ok (hcodec : codec.Canonical) (hnoise : Agree t s)
    (hsent : sent <+: (postStream codec t path grant payload maxResponseBytes answered).written)
    (hanswered : answered <+: (handleStream codec s sent).written) {full : FullResponse}
    (h : post codec t path grant payload maxResponseBytes answered = .ok full) :
    ∃ authorization result, s.authorize grant (.str t.sessionId) = .ok authorization ∧
      s.handler authorization path payload = .ok result ∧ full.statusCode = result.statusCode ∧
      full.contentType = .str result.contentType ∧ full.body = result.content := by
  have hresponse := (delivered hcodec hnoise hsent hanswered).response
  unfold post at h
  cases hresult : (postStream codec t path grant payload maxResponseBytes answered).result with
  | error e =>
    rw [hresult] at h
    cases h
  | ok response =>
    obtain ⟨authorization, result, hauthorized, hhandler, -, hstatus, htype, -, hend⟩ :=
      hresponse response hresult
    obtain ⟨statusCode, contentType, chunks, failure⟩ := response
    rw [hresult] at h
    cases failure with
    | some e => cases h
    | none =>
      cases h
      exact ⟨authorization, result, hauthorized, hhandler, hstatus, htype, (hend rfl).1⟩

/-- **The framing round-trips.** -/
theorem direct_round_trip {c : CipherState} (hc : c.Correct) (hcodec : codec.Canonical)
    (hnoise : Agree t s) (path grant : Str) (payload : Bytes) (maxResponseBytes : ℕ)
    (hsent : sent <+: (postStream codec t path grant payload maxResponseBytes answered).written)
    (hanswered : answered <+: (handleStream codec s sent).written) :
    (∀ n body last limit exceeded chunks, Transported body → Transported last → body ≠ last →
      Framed c n body last limit exceeded chunks) ∧
      Delivered codec t s path grant payload maxResponseBytes sent answered :=
  ⟨fun n _ _ limit exceeded chunks hbody hlast hne => framed hc n hbody hlast hne limit exceeded chunks,
    delivered hcodec hnoise hsent hanswered⟩

/-! ## An exchange -/

/-- A cipher whose tag is sixteen zeros. -/
def plainCipher : CipherState where
  encryptWithAd _ _ text := text ++ List.replicate 16 0
  decryptWithAd _ _ payload :=
    if payload.drop (payload.length - 16) = List.replicate 16 0 then some (payload.take (payload.length - 16))
    else none

theorem plainCipher_correct : plainCipher.Correct where
  decrypt_encrypt n ad text := by
    have hlen : (text ++ List.replicate 16 (0 : UInt8)).length - 16 = text.length := by
      rw [List.length_append, List.length_replicate, Nat.add_sub_cancel]
    have hwire : plainCipher.encryptWithAd n ad text = text ++ List.replicate 16 0 := rfl
    show (if _ then _ else _) = _
    rw [hwire, hlen, List.drop_left, List.take_left, if_pos rfl]
  length_encrypt n ad text := by
    show (text ++ List.replicate 16 (0 : UInt8)).length = _
    rw [List.length_append, List.length_replicate]

/-- Canonical JSON for the objects of the exchange. -/
def compactCodec : Codec where
  dumps o := (Utf8.encode (JsonText.dumps ⟨fun _ => [], fun _ => .nan⟩ (.obj o))).map (·.map UInt8.ofNat)
  floats := ⟨fun _ => [], fun _ => .nan⟩
  int := Json.int?

theorem compactCodec_canonical : compactCodec.Canonical where
  dumps o bytes _ h := by
    obtain ⟨text, htext, rfl⟩ := Option.map_eq_some_iff.mp h
    exact ⟨text, htext, rfl⟩
  int _ := rfl

def echoState : DirectNoiseState := ⟨plainCipher, plainCipher⟩

def echoTransport : DirectQuicTransport where
  sessionId := str "session"
  grant := str "grant"
  begin := .ok [1]
  finish _ _ := .ok echoState

def echoAuthorization : DirectAuthorization where
  session :=
    { sessionId := str "session"
      protocol := .messagerV2
      purposeType := str "conversation"
      purposeId := str "conversation-1"
      transportPolicy := ⟨[str "direct_quic"], 1048576, 4, 1⟩
      selfEndpoint := ⟨[], [], [], 0, [], 0⟩
      peerEndpoint := ⟨[], [], [], 0, [], 0⟩ }
  claims := []
  grant := str "grant"

/-- A responder that answers with what it is sent. -/
def echoServer : DirectQuicServer where
  authorize _ _ := .ok echoAuthorization
  connectionId := str "connection"
  accept _ _ _ := .ok (echoState, [2])
  handler _ _ content := .ok ⟨200, [], .stream [content, [], content] false⟩

theorem echo_agree : Agree echoTransport echoServer := by
  rintro first authorization responder response initiator - ⟨⟩ ⟨⟩
  exact ⟨rfl, rfl, plainCipher_correct, plainCipher_correct⟩

/-- Whether an object is written and fits in a record. -/
def fitsRecord (codec : Codec) (o : Json.Object) : Bool :=
  match canonicalJson codec o with
  | .ok head => head.length ≤ sliceSize
  | .error _ => false

theorem exists_of_fitsRecord {o : Json.Object} (h : fitsRecord codec o = true) :
    ∃ head, canonicalJson codec o = .ok head ∧ head.length ≤ sliceSize := by
  unfold fitsRecord at h
  cases hhead : canonicalJson codec o with
  | error e =>
    rw [hhead] at h
    cases h
  | ok head =>
    rw [hhead] at h
    exact ⟨head, rfl, of_decide_eq_true h⟩

theorem plainRecord_of_fits (type : DirectRecordType) {object : Bytes} (h : object.length ≤ sliceSize) :
    ∃ value, plainRecord type object = .ok value := by
  have hle : object.length ≤ maxRecordPayload := by rw [sliceSize] at h; omega
  unfold plainRecord recordHeader
  rw [if_pos hle]
  exact ⟨_, rfl⟩

theorem echo_hello : ∃ hello, clientHello compactCodec echoTransport (str "grant") = .ok hello := by
  obtain ⟨object, hobject, hlen⟩ : ∃ object, canonicalJson compactCodec (helloObject "grant" (str "grant")
      (b64urlEncode [1]) (str "session")) = .ok object ∧ object.length ≤ sliceSize :=
    exists_of_fitsRecord (by decide +kernel)
  obtain ⟨value, hvalue⟩ := plainRecord_of_fits .clientHello hlen
  exact ⟨value, clientHello_of_ok (t := echoTransport) rfl hobject hvalue⟩

theorem echo_answer : ∃ serverHello, answerHello compactCodec echoServer (str "grant") (str "session") [1] =
    .ok (echoAuthorization, echoState, serverHello) := by
  obtain ⟨object, hobject, hlen⟩ : ∃ object, canonicalJson compactCodec (helloObject "connectionId"
      (str "connection") (b64urlEncode [2]) (str "session")) = .ok object ∧ object.length ≤ sliceSize :=
    exists_of_fitsRecord (by decide +kernel)
  obtain ⟨value, hvalue⟩ := plainRecord_of_fits .serverHello hlen
  exact ⟨value, answerHello_of_ok (s := echoServer) rfl rfl hobject hvalue⟩

theorem echo_accepted : Accepted compactCodec echoTransport echoServer
    (str "/v1/messager/peer/v2/messages") (str "grant") [104, 105] 16 echoAuthorization echoState echoState
    ⟨200, [], .stream [[104, 105], [], [104, 105]] false⟩ where
  grant_eq := rfl
  hello := echo_hello
  handshake := by
    obtain ⟨serverHello, hanswer⟩ := echo_answer
    exact ⟨[1], [2], serverHello, rfl, hanswer, rfl, rfl⟩
  session_eq := rfl
  request_fits := exists_of_fitsRecord (by decide +kernel)
  route := by decide +kernel
  payload_le := by decide
  handler := rfl
  contentType := by decide +kernel
  response_fits := exists_of_fitsRecord (by decide +kernel)
  ends := rfl
  content_le := by decide

/-- Two bytes are sent and come back twice. -/
theorem direct_round_trip_echo : ∃ sent answered,
    ((∀ n body last limit exceeded chunks, Transported body → Transported last → body ≠ last →
      Framed plainCipher n body last limit exceeded chunks) ∧
      Delivered compactCodec echoTransport echoServer (str "/v1/messager/peer/v2/messages") (str "grant")
        [104, 105] 16 sent answered) ∧
      (handleStream compactCodec echoServer sent).request =
        some (str "/v1/messager/peer/v2/messages", [104, 105]) := by
  obtain ⟨sent, answered, hsent, hanswered, harrives⟩ :=
    exchange_of_accepted compactCodec_canonical echo_agree echo_accepted
  exact ⟨sent, answered, direct_round_trip plainCipher_correct compactCodec_canonical echo_agree
    (str "/v1/messager/peer/v2/messages") (str "grant") [104, 105] 16
    (hsent ▸ List.prefix_rfl) (hanswered ▸ List.prefix_rfl), (harrives sent answered hsent.symm hanswered.symm).1⟩

end AI2Apps.Peer.Direct
