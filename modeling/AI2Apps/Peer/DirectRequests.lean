import AI2Apps.Peer.DirectHellos

/-!
# The request of the direct exchange arrives

A request is a head, the slices of the payload and a last record.  Whatever beginning of it
reaches the responder, it is accepted only as a whole, with the path and the payload that were
sent.

* `writeRecords_head`: a head that does not fit leaves nothing written.
* `readRequest_ok`, `readRequest_whole`: what an accepted request says of what was written,
  and the request that arrives.
-/

namespace AI2Apps.Peer.Direct

open Streams

variable {codec : Codec} {t : DirectQuicTransport} {s : DirectQuicServer}
  {initiator responder : DirectNoiseState}

theorem sliceSize_pos : 0 < sliceSize := by decide

/-- The slices of byte strings fit in records. -/
theorem length_le_of_mem_flatMap_slices {chunks : List Bytes} {slice : Bytes}
    (h : slice ∈ chunks.flatMap (slices sliceSize)) : slice.length ≤ sliceSize := by
  obtain ⟨chunk, -, hslice⟩ := List.mem_flatMap.mp h
  exact length_le_of_mem_slices sliceSize_pos hslice

theorem flatten_flatMap_slices (chunks : List Bytes) :
    (chunks.flatMap (slices sliceSize)).flatten = chunks.flatten := by
  induction chunks with
  | nil => rfl
  | cons chunk chunks ih =>
    rw [List.flatMap_cons, List.flatten_append, flatten_slices sliceSize_pos, ih, List.flatten_cons]

/-- Records that can all be written are written without an error. -/
theorem writeRecords_snd {c : CipherState} {n : ℕ} {xs : List (DirectRecordType × Bytes)}
    (h : ∀ p ∈ xs, Transported p.1 ∧ p.2.length ≤ sliceSize) : (writeRecords c n xs).2 = none := by
  induction xs generalizing n with
  | nil => rfl
  | cons p xs ih =>
    obtain ⟨type, text⟩ := p
    obtain ⟨htype, hlen⟩ := h (type, text) List.mem_cons_self
    obtain ⟨value, hvalue⟩ := encryptRecord_isOk c n text htype hlen
    rw [writeRecords_cons hvalue]
    exact ih fun q hq => h q (List.mem_cons_of_mem _ hq)

theorem fits_bodyRecords (type : DirectRecordType) (htype : Transported type) {chunks : List Bytes}
    (hchunks : ∀ chunk ∈ chunks, chunk.length ≤ sliceSize) :
    ∀ p ∈ bodyRecords type chunks, Transported p.1 ∧ p.2.length ≤ sliceSize := by
  intro p hp
  obtain ⟨chunk, hchunk, rfl⟩ := List.mem_map.mp hp
  exact ⟨htype, hchunks chunk hchunk⟩

/-- A head and a body, as they are written: all of it, or nothing where the head does not fit. -/
theorem writeRecords_head (c : CipherState) (type : DirectRecordType) (head : Bytes)
    {more : List (DirectRecordType × Bytes)}
    (hmore : ∀ p ∈ more, Transported p.1 ∧ p.2.length ≤ sliceSize) :
    (∃ e, writeRecords c 0 ((type, head) :: more) = ([], some e)) ∨
      ∃ value, encryptRecord c 0 type head = .ok value ∧
        writeRecords c 0 ((type, head) :: more) = (value ++ (writeRecords c 1 more).1, none) := by
  cases hvalue : encryptRecord c 0 type head with
  | error e =>
    rw [writeRecords, hvalue]
    exact .inl ⟨e, rfl⟩
  | ok value =>
    rw [writeRecords_cons hvalue, writeRecords_snd hmore]
    exact .inr ⟨value, rfl, rfl⟩

/-! ## The request -/

/-- The object in a Request Head. -/
def requestHeadObject (path : Str) : Json.Object :=
  [(str "contentType", .str (str "application/json")), (str "method", .str (str "POST")),
    (str "path", .str path)]

theorem flat_requestHeadObject (path : Str) : Flat (requestHeadObject path) := by
  refine ⟨?_, ?_, ?_⟩
  · show ([str "contentType", str "method", str "path"] : List Str).Pairwise (· < ·)
    decide +kernel
  · show ∀ k ∈ ([str "contentType", str "method", str "path"] : List Str), ∀ c ∈ k, c < 0x80
    decide +kernel
  · intro p hp
    simp only [requestHeadObject, List.mem_cons, List.not_mem_nil, or_false] at hp
    rcases hp with rfl | rfl | rfl <;> exact .inl ⟨_, rfl⟩

theorem keysEq_self (o : Json.Object) {names : List Str} (h : Json.keys o = names) :
    Json.keysEq o names = true := by
  rw [Json.keysEq, h, Bool.and_self, List.all_eq_true]
  exact fun k hk => decide_eq_true hk

/-- The records of a request after its head. -/
def requestRecords (payload : Bytes) : List (DirectRecordType × Bytes) :=
  bodyRecords .requestBody (slices sliceSize payload) ++ [(.requestEnd, [])]

theorem fits_requestRecords (payload : Bytes) :
    ∀ p ∈ requestRecords payload, Transported p.1 ∧ p.2.length ≤ sliceSize := by
  intro p hp
  rcases List.mem_append.mp hp with hp | hp
  · exact fits_bodyRecords _ ⟨by simp, by simp⟩ (fun _ => length_le_of_mem_slices sliceSize_pos) p hp
  · obtain rfl := List.mem_singleton.mp hp
    exact ⟨⟨by simp, by simp⟩, Nat.zero_le _⟩

theorem writeRequest_eq (codec : Codec) (state : DirectNoiseState) (path : Str) (payload : Bytes) :
    writeRequest codec state path payload =
      match canonicalJson codec (requestHeadObject path) with
      | .error e => ([], some e)
      | .ok head =>
        ((writeRecords state.encrypt 0 ((.requestHead, head) :: requestRecords payload)).1,
          (writeRecords state.encrypt 0 ((.requestHead, head) :: requestRecords payload)).2.map .direct) :=
  rfl

/-- Nothing is written of a request that raises; another is a head and a body. -/
theorem writeRequest_cases (codec : Codec) (state : DirectNoiseState) (path : Str) (payload : Bytes) :
    (∃ e, writeRequest codec state path payload = ([], some e)) ∨
      ∃ head value, canonicalJson codec (requestHeadObject path) = .ok head ∧
        encryptRecord state.encrypt 0 .requestHead head = .ok value ∧
        writeRequest codec state path payload =
          (value ++ bodyWire state.encrypt 1 .requestBody .requestEnd (slices sliceSize payload), none) := by
  have hwrite := writeRequest_eq codec state path payload
  cases hhead : canonicalJson codec (requestHeadObject path) with
  | error e =>
    rw [hhead] at hwrite
    exact .inl ⟨e, hwrite⟩
  | ok head =>
    rw [hhead] at hwrite
    dsimp only at hwrite
    rcases writeRecords_head state.encrypt .requestHead head (fits_requestRecords payload) with
      ⟨e, he⟩ | ⟨value, hvalue, hwritten⟩
    · rw [he] at hwrite
      exact .inl ⟨.direct e, hwrite⟩
    · rw [hwritten] at hwrite
      exact .inr ⟨head, value, rfl, hvalue, hwrite⟩

/-- The Request Head is read as it was written. -/
theorem reads_requestHead (hcodec : codec.Canonical) (hpaired : Paired initiator responder)
    {path : Str} {head value : Bytes} (hhead : canonicalJson codec (requestHeadObject path) = .ok head)
    (hvalue : encryptRecord initiator.encrypt 0 .requestHead head = .ok value) :
    ∃ record, Reads (.direct endedEarly) nextRecord.read value record ∧
      requestPath codec responder record =
        if path ∈ routes then .ok path
        else .error (.direct (frameRejected "Direct request route is not allowed.")) := by
  rw [hpaired.request] at hvalue
  obtain ⟨record, -, hread, hdecrypt⟩ := reads_next hpaired.request_correct hvalue
  refine ⟨record, hread, ?_⟩
  have hdecode := decodeObject_of_canonicalJson hcodec (flat_requestHeadObject path) hhead
    ["contentType", "method", "path"] (keysEq_self _ rfl)
  have h₁ : str "contentType" ≠ str "method" := by decide +kernel
  have h₂ : str "contentType" ≠ str "path" := by decide +kernel
  have h₃ : str "method" ≠ str "path" := by decide +kernel
  have hfields : field (requestHeadObject path) "method" = .str (str "POST") ∧
      field (requestHeadObject path) "contentType" = .str (str "application/json") ∧
      field (requestHeadObject path) "path" = .str path := by
    simp [field, requestHeadObject, Json.lookup, h₁, h₂, h₃]
  obtain ⟨hmethod, hcontentType, hpath⟩ := hfields
  unfold requestPath
  rw [hdecrypt]
  simp only [Except.mapError, bind, Except.bind, hdecode, hmethod, hcontentType, hpath, ne_eq,
    not_true_eq_false, false_or]
  by_cases hroute : path ∈ routes
  · simp [hroute]
    rfl
  · simp [hroute]
    rfl

/-- **Only the whole request is accepted**, with the path and the payload that were sent. -/
theorem readRequest_ok (hcodec : codec.Canonical) (hpaired : Paired initiator responder)
    {authorization : DirectAuthorization} {path p : Str} {payload content l : Bytes}
    (hl : l <+: (writeRequest codec initiator path payload).1)
    (h : readRequest codec authorization responder l = .ok (p, content)) :
    p = path ∧ content = payload ∧ l = (writeRequest codec initiator path payload).1 ∧
      (writeRequest codec initiator path payload).2 = none := by
  have hread : ∃ record l', nextRecord.read l = .ok (record, l') := by
    unfold readRequest at h
    cases hn : nextRecord.read l with
    | error e =>
      rw [hn] at h
      cases h
    | ok r => exact ⟨r.1, r.2, rfl⟩
  obtain ⟨record', l'', hnext⟩ := hread
  rcases writeRequest_cases codec initiator path payload with
    ⟨e, hwrite⟩ | ⟨head, value, hhead, hvalue, hwrite⟩
  · rw [hwrite] at hl
    obtain rfl := List.prefix_nil.mp hl
    exact absurd (nextRecord.shorter hnext) (Nat.not_lt_zero _)
  · obtain ⟨record, hrecord, hpath⟩ := reads_requestHead hcodec hpaired hhead hvalue
    rw [hwrite] at hl ⊢
    rcases hrecord.of_beginning hl with herror | ⟨l', rfl, hl', hok⟩
    · rw [herror] at hnext
      cases hnext
    · unfold readRequest at h
      rw [hok] at h
      simp only [bind, Except.bind, hpath] at h
      split_ifs at h with hroute
      dsimp only at h
      cases hbody : readBody responder.decrypt .requestBody .requestEnd
          authorization.session.transportPolicy.maxBytes requestLimitExceeded 1 l' with
      | mk chunks rest =>
        rw [hbody] at h
        cases rest with
        | error e => cases h
        | ok left =>
          cases h
          rw [hpaired.request] at hl' ⊢
          obtain ⟨rfl, rfl, -⟩ := readBody_ok _ _ 1 hpaired.request_correct ⟨by simp, by simp⟩
            ⟨by simp, by simp⟩ (by simp) (fun _ => length_le_of_mem_slices sliceSize_pos) hl' hbody
          exact ⟨rfl, flatten_slices sliceSize_pos payload, rfl, rfl⟩

/-- **A whole request arrives.** -/
theorem readRequest_whole (hcodec : codec.Canonical) (hpaired : Paired initiator responder)
    {authorization : DirectAuthorization} {path : Str} {payload : Bytes}
    (hwrite : (writeRequest codec initiator path payload).2 = none) (hroute : path ∈ routes)
    (hlimit : payload.length ≤ authorization.session.transportPolicy.maxBytes) :
    readRequest codec authorization responder (writeRequest codec initiator path payload).1 =
      .ok (path, payload) := by
  rcases writeRequest_cases codec initiator path payload with
    ⟨e, heq⟩ | ⟨head, value, hhead, hvalue, heq⟩
  · rw [heq] at hwrite
    cases hwrite
  · obtain ⟨record, hrecord, hpath⟩ := reads_requestHead hcodec hpaired hhead hvalue
    have hbody : readBody responder.decrypt .requestBody .requestEnd
        authorization.session.transportPolicy.maxBytes requestLimitExceeded 1
          (bodyWire responder.decrypt 1 .requestBody .requestEnd (slices sliceSize payload) ++ []) =
        (slices sliceSize payload, .ok []) :=
      readBody_whole _ _ 1 hpaired.request_correct ⟨by simp, by simp⟩ ⟨by simp, by simp⟩ (by simp)
        (fun _ => length_le_of_mem_slices sliceSize_pos)
        (by rw [flatten_slices sliceSize_pos]; exact hlimit) []
    rw [List.append_nil] at hbody
    rw [heq, hpaired.request]
    unfold readRequest
    rw [hrecord.whole]
    simp only [bind, Except.bind, hpath, if_pos hroute, hbody, flatten_slices sliceSize_pos]
    rfl

end AI2Apps.Peer.Direct
