import AI2Apps.Peer.DirectRequests

/-!
# The response of the direct exchange arrives

A response is a head, the slices of the handler's body and a last record, which is missing
where the body raises.  Whatever beginning of it reaches the initiator, the chunks that are
yielded are the first slices, and the body ends without an error only with the last of them.

* `respond_cases`, `responseWire`: what is written of a response.
* `readResponse_ok`, `readResponse_whole`: what a response that is returned says of what was
  written, and the response that arrives.
-/

namespace AI2Apps.Peer.Direct

open Streams

variable {codec : Codec} {initiator responder : DirectNoiseState} {result : HandlerResult}

/-- The object in a Response Head. -/
def responseHeadObject (result : HandlerResult) : Json.Object :=
  [(str "contentType", .str result.contentType), (str "status", .int result.statusCode)]

theorem flat_responseHeadObject (result : HandlerResult) : Flat (responseHeadObject result) := by
  refine ⟨?_, ?_, ?_⟩
  · show ([str "contentType", str "status"] : List Str).Pairwise (· < ·)
    decide +kernel
  · show ∀ k ∈ ([str "contentType", str "status"] : List Str), ∀ c ∈ k, c < 0x80
    decide +kernel
  · intro p hp
    simp only [responseHeadObject, List.mem_cons, List.not_mem_nil, or_false] at hp
    rcases hp with rfl | rfl
    exacts [.inl ⟨_, rfl⟩, .inr ⟨_, rfl⟩]

/-- The bytes of the handler's body. -/
def HandlerResult.content (result : HandlerResult) : Bytes :=
  match result.body with
  | .whole body => body
  | .stream chunks _ => chunks.flatten

theorem flatten_handlerSlices (result : HandlerResult) : result.slices.flatten = result.content := by
  unfold HandlerResult.slices HandlerResult.content
  cases result.body with
  | whole body => exact flatten_slices sliceSize_pos body
  | stream chunks raises => exact flatten_flatMap_slices chunks

theorem length_le_of_mem_handlerSlices {slice : Bytes} (h : slice ∈ result.slices) :
    slice.length ≤ sliceSize := by
  unfold HandlerResult.slices at h
  cases hbody : result.body with
  | whole body =>
    rw [hbody] at h
    exact length_le_of_mem_slices sliceSize_pos h
  | stream chunks raises =>
    rw [hbody] at h
    exact length_le_of_mem_flatMap_slices h

def contentTypes : List Str := [str "application/json", str "text/event-stream"]

/-- The records of a body, the last of them only where the body ends. -/
def responseRecords (result : HandlerResult) : List (DirectRecordType × Bytes) :=
  bodyRecords .responseBody result.slices ++ if result.ends then [(.responseEnd, [])] else []

/-- What is written of a response after its head. -/
def responseWire (state : DirectNoiseState) (result : HandlerResult) : Bytes :=
  (writeRecords state.encrypt 1 (responseRecords result)).1

theorem fits_responseRecords (result : HandlerResult) :
    ∀ p ∈ responseRecords result, Transported p.1 ∧ p.2.length ≤ sliceSize := by
  intro p hp
  rcases List.mem_append.mp hp with hp | hp
  · exact fits_bodyRecords _ ⟨by simp, by simp⟩ (fun _ => length_le_of_mem_handlerSlices) p hp
  · split_ifs at hp
    · obtain rfl := List.mem_singleton.mp hp
      exact ⟨⟨by simp, by simp⟩, Nat.zero_le _⟩
    · exact absurd hp List.not_mem_nil

theorem responseWire_of_ends (state : DirectNoiseState) (h : result.ends = true) :
    responseWire state result = bodyWire state.encrypt 1 .responseBody .responseEnd result.slices := by
  rw [responseWire, responseRecords, if_pos h]
  rfl

/-- A body that raises leaves its last record unwritten. -/
theorem responseWire_of_raises (state : DirectNoiseState) (h : result.ends = false) :
    ∃ rest, rest ≠ [] ∧
      responseWire state result ++ rest = bodyWire state.encrypt 1 .responseBody .responseEnd result.slices := by
  have hfits := fits_bodyRecords .responseBody ⟨by simp, by simp⟩
    (fun _ => length_le_of_mem_handlerSlices : ∀ chunk ∈ result.slices, chunk.length ≤ sliceSize)
  obtain ⟨value, hvalue⟩ := encryptRecord_isOk state.encrypt
    (1 + (bodyRecords .responseBody result.slices).length) [] (t := .responseEnd) ⟨by simp, by simp⟩
    (Nat.zero_le _)
  have hne : value ≠ [] := by
    obtain ⟨header, hheader, rfl⟩ := encryptRecord_eq_ok hvalue
    have hlen := length_recordHeader hheader
    intro hnil
    rw [(List.append_eq_nil_iff.mp hnil).1] at hlen
    cases hlen
  refine ⟨value, hne, ?_⟩
  rw [responseWire, responseRecords, if_neg (by rw [h]; simp), List.append_nil, bodyWire,
    writeRecords_append hfits, writeRecords_cons hvalue]
  show _ = _ ++ (value ++ [])
  rw [List.append_nil]

theorem responseWire_split (state : DirectNoiseState) (result : HandlerResult) :
    responseWire state result <+: bodyWire state.encrypt 1 .responseBody .responseEnd result.slices := by
  cases h : result.ends with
  | true => exact responseWire_of_ends state h ▸ List.prefix_rfl
  | false =>
    obtain ⟨rest, -, hrest⟩ := responseWire_of_raises state h
    exact ⟨rest, hrest⟩

theorem respond_eq (codec : Codec) (state : DirectNoiseState) (result : HandlerResult) :
    respond codec state result =
      if result.contentType ∈ contentTypes then
        match canonicalJson codec (responseHeadObject result) with
        | .error _ => []
        | .ok head => (writeRecords state.encrypt 0 ((.responseHead, head) :: responseRecords result)).1
      else [] :=
  ite_not _ _ _

/-- Nothing is written of a response whose head cannot be; another is a head and a body. -/
theorem respond_cases (codec : Codec) (state : DirectNoiseState) (result : HandlerResult) :
    respond codec state result = [] ∨
      ∃ head value, canonicalJson codec (responseHeadObject result) = .ok head ∧
        encryptRecord state.encrypt 0 .responseHead head = .ok value ∧
        respond codec state result = value ++ responseWire state result := by
  have hrespond := respond_eq codec state result
  split_ifs at hrespond
  · cases hhead : canonicalJson codec (responseHeadObject result) with
    | error e =>
      rw [hhead] at hrespond
      exact .inl hrespond
    | ok head =>
      rw [hhead] at hrespond
      dsimp only at hrespond
      rcases writeRecords_head state.encrypt .responseHead head (fits_responseRecords result) with
        ⟨e, he⟩ | ⟨value, hvalue, hwritten⟩
      · rw [he] at hrespond
        exact .inl hrespond
      · rw [hwritten] at hrespond
        exact .inr ⟨head, value, rfl, hvalue, hrespond⟩
  · exact .inl hrespond

/-- The head that fits is written. -/
theorem respond_of_fits {state : DirectNoiseState} {head : Bytes}
    (htype : result.contentType ∈ contentTypes)
    (hhead : canonicalJson codec (responseHeadObject result) = .ok head)
    (hlen : head.length ≤ sliceSize) : respond codec state result ≠ [] := by
  have hrespond := respond_eq codec state result
  obtain ⟨value, hvalue⟩ := encryptRecord_isOk state.encrypt 0 head (t := .responseHead)
    ⟨by simp, by simp⟩ hlen
  obtain ⟨header, hheader, rfl⟩ := encryptRecord_eq_ok hvalue
  have hheaderLen := length_recordHeader hheader
  rw [if_pos htype, hhead] at hrespond
  dsimp only at hrespond
  rw [writeRecords_cons hvalue] at hrespond
  rw [hrespond]
  intro hnil
  rw [(List.append_eq_nil_iff.mp (List.append_eq_nil_iff.mp hnil).1).1] at hheaderLen
  cases hheaderLen

/-- The Response Head is read as it was written. -/
theorem reads_responseHead (hcodec : codec.Canonical) (hpaired : Paired initiator responder)
    {head value : Bytes} (hhead : canonicalJson codec (responseHeadObject result) = .ok head)
    (hvalue : encryptRecord responder.encrypt 0 .responseHead head = .ok value) :
    ∃ record, Reads (.direct endedEarly) nextRecord.read value record ∧
      responseHead codec initiator record = .ok (responseHeadObject result) := by
  rw [hpaired.response] at hvalue
  obtain ⟨record, -, hread, hdecrypt⟩ := reads_next hpaired.response_correct hvalue
  refine ⟨record, hread, ?_⟩
  have hdecode := decodeObject_of_canonicalJson hcodec (flat_responseHeadObject result) hhead
    ["contentType", "status"] (keysEq_self _ rfl)
  unfold responseHead
  rw [hdecrypt]
  exact hdecode

theorem field_responseHeadObject (result : HandlerResult) :
    field (responseHeadObject result) "status" = .int result.statusCode ∧
      field (responseHeadObject result) "contentType" = .str result.contentType := by
  have h : str "contentType" ≠ str "status" := by decide +kernel
  simp [field, responseHeadObject, Json.lookup, h]

/-- What is yielded of a beginning of a body, and what its end says. -/
theorem responseBody_beginning (hpaired : Paired initiator responder) (maxResponseBytes : ℕ) {l : Bytes}
    (hl : l <+: responseWire responder result) :
    (responseBody initiator maxResponseBytes l).1 <+: result.slices ∧
      ((responseBody initiator maxResponseBytes l).2 = none →
        (responseBody initiator maxResponseBytes l).1 = result.slices ∧
          l = responseWire responder result ∧ result.ends = true) := by
  have hbody := hl.trans (responseWire_split responder result)
  rw [hpaired.response] at hbody
  have hslices : ∀ chunk ∈ result.slices, chunk.length ≤ sliceSize :=
    fun _ => length_le_of_mem_handlerSlices
  have hchunks := readBody_chunks maxResponseBytes responseLimitExceeded 1 hpaired.response_correct
    ⟨by simp, by simp⟩ ⟨by simp, by simp⟩ (by simp)
    hslices hbody
  unfold responseBody
  cases hread : readBody initiator.decrypt .responseBody .responseEnd maxResponseBytes
      responseLimitExceeded 1 l with
  | mk chunks out =>
    rw [hread] at hchunks
    cases out with
    | error e => exact ⟨hchunks, nofun⟩
    | ok left =>
      obtain ⟨hwhole, rfl, -⟩ := readBody_ok _ _ 1 hpaired.response_correct ⟨by simp, by simp⟩
        ⟨by simp, by simp⟩ (by simp) hslices hbody hread
      refine ⟨hchunks, fun _ => ⟨rfl, ?_⟩⟩
      rw [← hpaired.response] at hwhole
      cases hends : result.ends with
      | true => exact ⟨hwhole.trans (responseWire_of_ends responder hends).symm, rfl⟩
      | false =>
        -- The last record was not written, so the whole body cannot have arrived.
        obtain ⟨rest, hrest, heq⟩ := responseWire_of_raises responder hends
        have hlen := hl.length_le
        have hlen' := congrArg List.length (heq.trans hwhole.symm)
        rw [List.length_append] at hlen'
        have := List.length_pos_iff.mpr hrest
        omega

/-- **Only the handler's answer is returned.** -/
theorem readResponse_ok (hcodec : codec.Canonical) (hpaired : Paired initiator responder)
    {maxResponseBytes : ℕ} {l : Bytes} {response : Response}
    (hl : l <+: respond codec responder result)
    (h : readResponse codec initiator maxResponseBytes l = .ok response) :
    response.statusCode = result.statusCode ∧ response.contentType = .str result.contentType ∧
      response.body.1 <+: result.slices ∧
      (response.body.2 = none → response.body.1 = result.slices ∧
        l = respond codec responder result ∧ result.ends = true) := by
  have hread : ∃ record l', nextRecord.read l = .ok (record, l') := by
    unfold readResponse at h
    cases hn : nextRecord.read l with
    | error e =>
      rw [hn] at h
      cases h
    | ok r => exact ⟨r.1, r.2, rfl⟩
  obtain ⟨record', l'', hnext⟩ := hread
  rcases respond_cases codec responder result with hnil | ⟨head, value, hhead, hvalue, heq⟩
  · rw [hnil] at hl
    obtain rfl := List.prefix_nil.mp hl
    exact absurd (nextRecord.shorter hnext) (Nat.not_lt_zero _)
  · obtain ⟨record, hrecord, hobject⟩ := reads_responseHead hcodec hpaired hhead hvalue
    obtain ⟨hstatus, htype⟩ := field_responseHeadObject result
    rw [heq] at hl ⊢
    rcases hrecord.of_beginning hl with herror | ⟨l', rfl, hl', hok⟩
    · rw [herror] at hnext
      cases hnext
    · unfold readResponse at h
      rw [hok] at h
      simp only [bind, Except.bind, Except.mapError, hobject, hstatus, hcodec.int, htype] at h
      cases h
      obtain ⟨hchunks, hwhole⟩ := responseBody_beginning hpaired maxResponseBytes hl'
      refine ⟨rfl, rfl, hchunks, fun hnone => ?_⟩
      obtain ⟨hslices, rfl, hends⟩ := hwhole hnone
      exact ⟨hslices, rfl, hends⟩

/-- **A whole response arrives.** -/
theorem readResponse_whole (hcodec : codec.Canonical) (hpaired : Paired initiator responder)
    {maxResponseBytes : ℕ} {head : Bytes} (htype : result.contentType ∈ contentTypes)
    (hhead : canonicalJson codec (responseHeadObject result) = .ok head)
    (hlen : head.length ≤ sliceSize) (hends : result.ends = true)
    (hlimit : result.content.length ≤ maxResponseBytes) :
    readResponse codec initiator maxResponseBytes (respond codec responder result) =
      .ok ⟨result.statusCode, .str result.contentType, (result.slices, none)⟩ := by
  rcases respond_cases codec responder result with hnil | ⟨head', value, hhead', hvalue, heq⟩
  · exact absurd hnil (respond_of_fits htype hhead hlen)
  · obtain ⟨record, hrecord, hobject⟩ := reads_responseHead hcodec hpaired hhead' hvalue
    obtain ⟨hstatus, htype'⟩ := field_responseHeadObject result
    have hbody : readBody initiator.decrypt .responseBody .responseEnd maxResponseBytes
        responseLimitExceeded 1 (responseWire responder result ++ []) = (result.slices, .ok []) := by
      rw [responseWire_of_ends responder hends, hpaired.response]
      exact readBody_whole _ _ 1 hpaired.response_correct ⟨by simp, by simp⟩ ⟨by simp, by simp⟩
        (by simp) (fun _ => length_le_of_mem_handlerSlices)
        (by rw [flatten_handlerSlices]; exact hlimit) []
    rw [List.append_nil] at hbody
    rw [heq]
    unfold readResponse
    rw [hrecord.whole]
    simp only [bind, Except.bind, Except.mapError, hobject, hstatus, hcodec.int, htype', responseBody,
      hbody]
    rfl

end AI2Apps.Peer.Direct
