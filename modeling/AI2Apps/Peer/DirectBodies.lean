import AI2Apps.Lib.JsonRoundTrip
import AI2Apps.Peer.DirectQuic

/-!
# Bodies and objects are read back

What one end writes after the hellos is a head, the slices of a body and a last record.  The
loop of the other end reads the slices back, refuses more than its limit, and ends without an
error only when the last record has arrived.

* `carries_body`: the records of a body, as the loop reads them.
* `readBody_whole`, `readBody_cut`, `readBody_ok`: whole bodies, cut bodies, and what a body
  that ends says of what was written.
* `Codec.Canonical`, `decodeObject_of_canonicalJson`: a written object is read back.
-/

namespace AI2Apps.Peer.Direct

open Streams

/-! ## Bodies -/

/-- The body a sender writes from its `n`-th record on. -/
def bodyWire (c : CipherState) (n : ℕ) (body last : DirectRecordType) (chunks : List Bytes) : Bytes :=
  (writeRecords c n (bodyRecords body chunks ++ [(last, [])])).1

/-- Types of records that the transport cipher may encrypt. -/
def Transported (t : DirectRecordType) : Prop := t ≠ .clientHello ∧ t ≠ .serverHello

theorem writeRecords_cons {c : CipherState} {n : ℕ} {t : DirectRecordType} {text value : Bytes}
    (h : encryptRecord c n t text = .ok value) (more : List (DirectRecordType × Bytes)) :
    writeRecords c n ((t, text) :: more) =
      (value ++ (writeRecords c (n + 1) more).1, (writeRecords c (n + 1) more).2) := by
  rw [writeRecords, h]

/-- Records that can all be written are written. -/
theorem writeRecords_append {c : CipherState} {n : ℕ} {xs : List (DirectRecordType × Bytes)}
    (h : ∀ p ∈ xs, Transported p.1 ∧ p.2.length ≤ sliceSize) (ys : List (DirectRecordType × Bytes)) :
    writeRecords c n (xs ++ ys) =
      ((writeRecords c n xs).1 ++ (writeRecords c (n + xs.length) ys).1,
        (writeRecords c (n + xs.length) ys).2) := by
  induction xs generalizing n with
  | nil => rfl
  | cons p xs ih =>
    obtain ⟨t, text⟩ := p
    obtain ⟨ht, hlen⟩ := h (t, text) List.mem_cons_self
    obtain ⟨value, hvalue⟩ := encryptRecord_isOk c n text ht hlen
    rw [List.cons_append, writeRecords_cons hvalue, writeRecords_cons hvalue,
      ih fun q hq => h q (List.mem_cons_of_mem _ hq), List.append_assoc, List.length_cons,
      show n + 1 + xs.length = n + (xs.length + 1) by omega]

/-- An encrypted record, as either end reads it. -/
theorem reads_next {c : CipherState} (hc : c.Correct) {n : ℕ} {t : DirectRecordType} {text value : Bytes}
    (h : encryptRecord c n t text = .ok value) :
    ∃ record : DirectRecord, record.recordType = t ∧
      Reads (.direct endedEarly) nextRecord.read value record ∧
      decryptRecord c n (record.header ++ record.payload) t = .ok text := by
  obtain ⟨-, record, ht, hread, hdecrypt⟩ := reads_encryptRecord hc h
  exact ⟨record, ht, hread.mapError Raised.direct, by rw [hdecrypt, if_neg (by simp)]⟩

section Body

variable {c : CipherState} {body last : DirectRecordType} (limit : ℕ) (exceeded : Raised)

theorem bodyStep_last {p : Progress} {record : DirectRecord} {text : Bytes}
    (ht : record.recordType = last)
    (h : decryptRecord c p.nonce (record.header ++ record.payload) last = .ok text) :
    bodyStep c body last limit exceeded p record = .ok none := by
  rw [bodyStep, if_pos ht, h]
  rfl

theorem bodyStep_chunk {p : Progress} {record : DirectRecord} {chunk : Bytes}
    (ht : record.recordType = body) (hne : body ≠ last)
    (h : decryptRecord c p.nonce (record.header ++ record.payload) body = .ok chunk) :
    bodyStep c body last limit exceeded p record =
      if limit < p.count + chunk.length then .error exceeded
      else .ok (some (chunk, ⟨p.nonce + 1, p.count + chunk.length⟩)) := by
  rw [bodyStep, if_neg (by rw [ht]; exact hne), h]
  show (if limit < p.count + chunk.length then _ else _) = _
  split_ifs <;> rfl

/-- **The records of a body.** The loop reads what was written up to the chunk that exceeds
the limit, and up to the last record where none does. -/
theorem carries_body (hc : c.Correct) (hbody : Transported body) (hlast : Transported last)
    (hne : body ≠ last) {chunks : List Bytes} (hchunks : ∀ chunk ∈ chunks, chunk.length ≤ sliceSize)
    (n : ℕ) {count : ℕ} (hcount : count ≤ limit) :
    ∃ items used unused out, bodyWire c n body last chunks = used ++ unused ∧
      Carries (.direct endedEarly) nextRecord (bodyStep c body last limit exceeded) ⟨n, count⟩
        items used out ∧
      items <+: chunks ∧ (out = .ok () → items = chunks ∧ unused = []) ∧
      out = if count + chunks.flatten.length ≤ limit then .ok () else .error exceeded := by
  induction chunks generalizing n count with
  | nil =>
    obtain ⟨value, hvalue⟩ := encryptRecord_isOk c n [] hlast (Nat.zero_le _)
    obtain ⟨record, ht, hread, hdecrypt⟩ := reads_next hc hvalue
    refine ⟨[], value, [], .ok (), ?_, .stop hread (bodyStep_last limit exceeded ht hdecrypt), List.prefix_rfl,
      fun _ => ⟨rfl, rfl⟩, (if_pos (by simpa using hcount)).symm⟩
    show (writeRecords c n [(last, [])]).1 = _
    rw [writeRecords_cons hvalue]
    rfl
  | cons chunk chunks ih =>
    obtain ⟨value, hvalue⟩ := encryptRecord_isOk c n chunk hbody (hchunks chunk List.mem_cons_self)
    obtain ⟨record, ht, hread, hdecrypt⟩ := reads_next hc hvalue
    have hstep := bodyStep_chunk limit exceeded (p := ⟨n, count⟩) ht hne hdecrypt
    have hwire : bodyWire c n body last (chunk :: chunks) =
        value ++ bodyWire c (n + 1) body last chunks :=
      congrArg Prod.fst (writeRecords_cons hvalue _)
    have hlen : (chunk :: chunks).flatten.length = chunk.length + chunks.flatten.length := by
      rw [List.flatten_cons, List.length_append]
    dsimp only at hstep
    split_ifs at hstep with hlimit
    · refine ⟨[], value, bodyWire c (n + 1) body last chunks, .error exceeded, hwire,
        .refuse hread hstep, List.nil_prefix, nofun, (if_neg (by omega)).symm⟩
    · obtain ⟨items, used, unused, out, hused, hcarries, hitems, hok, hout⟩ :=
        ih (fun chunk hchunk => hchunks chunk (List.mem_cons_of_mem _ hchunk))
          (n + 1) (show count + chunk.length ≤ limit by omega)
      refine ⟨chunk :: items, value ++ used, unused, out, ?_, .item hread hstep hcarries,
        List.cons_prefix_cons.mpr ⟨rfl, hitems⟩, fun h => ?_, ?_⟩
      · rw [hwire, hused, List.append_assoc]
      · exact ⟨congrArg (chunk :: ·) (hok h).1, (hok h).2⟩
      · rw [hout, hlen, Nat.add_assoc]

variable {chunks : List Bytes} (n : ℕ)

/-- **A body that fits is read back.** -/
theorem readBody_whole (hc : c.Correct) (hbody : Transported body) (hlast : Transported last)
    (hne : body ≠ last) (hchunks : ∀ chunk ∈ chunks, chunk.length ≤ sliceSize)
    (hlimit : chunks.flatten.length ≤ limit) (rest : Bytes) :
    readBody c body last limit exceeded n (bodyWire c n body last chunks ++ rest) = (chunks, .ok rest) := by
  obtain ⟨items, used, unused, out, hwire, hcarries, -, hok, hout⟩ :=
    carries_body limit exceeded hc hbody hlast hne hchunks n (Nat.zero_le limit)
  rw [Nat.zero_add, if_pos hlimit] at hout
  subst hout
  obtain ⟨rfl, rfl⟩ := hok rfl
  rw [hwire, List.append_nil, readBody, collect_whole hcarries]
  rfl

/-- **A part of a body is an error**, after some of its chunks. -/
theorem readBody_cut (hc : c.Correct) (hbody : Transported body) (hlast : Transported last)
    (hne : body ≠ last) (hchunks : ∀ chunk ∈ chunks, chunk.length ≤ sliceSize) {l rest : Bytes}
    (hl : l ++ rest = bodyWire c n body last chunks) (hrest : rest ≠ []) :
    ∃ items e, readBody c body last limit exceeded n l = (items, .error e) ∧ items <+: chunks := by
  obtain ⟨items, used, unused, out, hwire, hcarries, hitems, hok, -⟩ :=
    carries_body limit exceeded hc hbody hlast hne hchunks n (Nat.zero_le limit)
  rw [hwire] at hl
  rcases cut_append hl with ⟨left, hleft, hl'⟩ | ⟨l', rfl, hl'⟩
  · obtain ⟨k, hk⟩ := collect_cut hcarries hl' hleft
    exact ⟨items.take k, _, hk, (List.take_prefix k items).trans hitems⟩
  · rw [readBody, collect_whole hcarries]
    cases out with
    | error e => exact ⟨items, e, rfl, hitems⟩
    | ok u =>
      rw [(hok rfl).2] at hl'
      exact absurd (List.append_eq_nil_iff.mp hl').2 hrest

/-- What is read of a beginning of a body is a beginning of its chunks. -/
theorem readBody_chunks (hc : c.Correct) (hbody : Transported body) (hlast : Transported last)
    (hne : body ≠ last) (hchunks : ∀ chunk ∈ chunks, chunk.length ≤ sliceSize) {l : Bytes}
    (hl : l <+: bodyWire c n body last chunks) :
    (readBody c body last limit exceeded n l).1 <+: chunks := by
  obtain ⟨rest, hrest⟩ := hl
  by_cases hnil : rest = []
  · obtain ⟨items, used, unused, out, hwire, hcarries, hitems, -, -⟩ :=
      carries_body limit exceeded hc hbody hlast hne hchunks n (Nat.zero_le limit)
    rw [hnil, List.append_nil] at hrest
    rw [hrest, hwire, readBody, collect_whole hcarries]
    exact hitems
  · obtain ⟨items, e, hcut, hitems⟩ :=
      readBody_cut limit exceeded n hc hbody hlast hne hchunks hrest hnil
    rw [hcut]
    exact hitems

/-- What a body that ends without an error says of what was written. -/
theorem readBody_ok (hc : c.Correct) (hbody : Transported body) (hlast : Transported last)
    (hne : body ≠ last) (hchunks : ∀ chunk ∈ chunks, chunk.length ≤ sliceSize) {l left : Bytes}
    (hl : l <+: bodyWire c n body last chunks) {items : List Bytes}
    (h : readBody c body last limit exceeded n l = (items, .ok left)) :
    l = bodyWire c n body last chunks ∧ items = chunks ∧ chunks.flatten.length ≤ limit := by
  obtain ⟨rest, hrest⟩ := hl
  by_cases hnil : rest = []
  · rw [hnil, List.append_nil] at hrest
    obtain ⟨items', used, unused, out, hwire, hcarries, -, hok, hout⟩ :=
      carries_body limit exceeded hc hbody hlast hne hchunks n (Nat.zero_le limit)
    rw [hrest, hwire, readBody, collect_whole hcarries] at h
    obtain ⟨hitems, hmap⟩ := Prod.mk.inj h
    cases out with
    | error e => cases hmap
    | ok u =>
      refine ⟨hrest, hitems.symm.trans (hok rfl).1, ?_⟩
      by_contra hlimit
      rw [Nat.zero_add, if_neg hlimit] at hout
      cases hout
  · obtain ⟨items', e, hcut, -⟩ :=
      readBody_cut limit exceeded n hc hbody hlast hne hchunks hrest hnil
    rw [hcut] at h
    cases (Prod.mk.inj h).2

end Body

/-! ## Objects -/

/-- An object as it stands in a canonical text: its ASCII keys in order, texts and numbers. -/
def Flat (o : Json.Object) : Prop :=
  (Json.keys o).Pairwise (· < ·) ∧ (∀ k ∈ Json.keys o, ∀ c ∈ k, c < 0x80) ∧
    ∀ p ∈ o, (∃ s, p.2 = .str s) ∨ ∃ i, p.2 = .int i

/-- What the exchange relies on: a canonical text of such an object is the UTF-8 of its
compact text, and `int` of an integer is the integer. -/
structure Codec.Canonical (codec : Codec) : Prop where
  dumps : ∀ o bytes, Flat o → codec.dumps o = some bytes →
    ∃ text, Utf8.encode (JsonText.dumps codec.floats (.obj o)) = some text ∧ bytes = text.map UInt8.ofNat
  int : ∀ i, codec.int (.int i) = some i

theorem plainMembers_of_flat {o : Json.Object} (h : Flat o) : Json.plainMembers o = true := by
  obtain ⟨hkeys, -, hvalues⟩ := h
  induction o with
  | nil => rfl
  | cons p o ih =>
    obtain ⟨k, v⟩ := p
    have hkeys' : ((k :: Json.keys o) : List Str).Pairwise (· < ·) := hkeys
    have hplain : v.plain = true := by
      rcases hvalues (k, v) List.mem_cons_self with ⟨s, hs⟩ | ⟨i, hi⟩
      · dsimp only at hs
        rw [hs]
        rfl
      · dsimp only at hi
        rw [hi]
        rfl
    have hnot : k ∉ Json.keys o := fun hmem => List.lt_irrefl k ((List.pairwise_cons.mp hkeys').1 k hmem)
    simp only [Json.plainMembers, Bool.and_eq_true, decide_eq_true_eq]
    exact ⟨⟨hnot, hplain⟩, ih (List.pairwise_cons.mp hkeys').2
      fun p hp => hvalues p (List.mem_cons_of_mem _ hp)⟩

theorem map_toNat_map_ofNat {l : List ℕ} (h : ∀ b ∈ l, b < 256) :
    (l.map UInt8.ofNat).map UInt8.toNat = l := by
  rw [List.map_map]
  refine (List.map_congr_left fun b hb => ?_).trans (List.map_id l)
  exact UInt8.toNat_ofNat_of_lt' (h b hb)

/-- **A written object is read back.** -/
theorem decodeObject_of_canonicalJson {codec : Codec} (hcodec : codec.Canonical) {o : Json.Object}
    (ho : Flat o) {bytes : Bytes} (h : canonicalJson codec o = .ok bytes) (fields : List String)
    (hfields : Json.keysEq o (fields.map str) = true) : decodeObject codec bytes fields = .ok o := by
  have hdumps : codec.dumps o = some bytes := by
    unfold canonicalJson at h
    cases hd : codec.dumps o with
    | none =>
      rw [hd] at h
      cases h
    | some b =>
      rw [hd] at h
      cases h
      rfl
  obtain ⟨text, htext, rfl⟩ := hcodec.dumps o bytes ho hdumps
  have hloads : codec.loads (text.map UInt8.ofNat) = some (.obj o) := by
    rw [Codec.loads, map_toNat_map_ofNat fun b hb => (Utf8.lt_of_mem_encode htext hb).1,
      Utf8.decode_encode htext]
    exact JsonText.loads_dumps codec.floats (v := .obj o) (plainMembers_of_flat ho)
  rw [decodeObject, hloads]
  dsimp only
  rw [hfields, h]
  show (if ¬ true = true then _ else if text.map UInt8.ofNat ≠ text.map UInt8.ofNat then _ else _) = _
  rw [if_neg (by simp), if_neg (by simp)]
  rfl

theorem b64urlDecode_b64urlEncode (value : Bytes) : b64urlDecode (.str (b64urlEncode value)) = .ok value := by
  have hbytes : ∀ b ∈ value.map UInt8.toNat, b < 256 := by
    intro b hb
    obtain ⟨u, -, rfl⟩ := List.mem_map.mp hb
    exact u.toNat_lt
  unfold b64urlDecode b64urlEncode
  dsimp only
  rw [Base64Url.decode_encode hbytes]
  dsimp only
  rw [List.map_map]
  congr 1
  refine (List.map_congr_left fun b _ => ?_).trans (List.map_id value)
  exact UInt8.ofNat_toNat

end AI2Apps.Peer.Direct
