import AI2Apps.Lib.Streams
import Mathlib.Algebra.Group.Nat.Defs
import Mathlib.Tactic.SplitIfs

/-!
# The records of Peer Direct QUIC v1

A record is a header of twelve bytes, with the length of the payload in its last four, and
the payload; after the hellos the payload is what the Noise transport cipher makes of the
plaintext under the header.  The cipher is a parameter.

* `recordHeader`, `plainRecord`, `parseRecord`, `encryptRecord`, `decryptRecord`: the codec.
* `readRecord`: the record that comes next on a stream.
* `reads_plainRecord`, `reads_encryptRecord`: a written record is read back, and no part of
  it is taken for a record.
* `writeRecords`: what is written of a list of records.
-/

namespace AI2Apps.Peer.Direct

open Streams

abbrev Bytes := List UInt8

def headerSize : ℕ := 12

def maxRecordPayload : ℕ := 1048576

/-- `A2PQ`. -/
def magic : Bytes := [0x41, 0x32, 0x50, 0x51]

def version : ℕ := 1

inductive DirectRecordType where
  | clientHello
  | serverHello
  | requestHead
  | requestBody
  | requestEnd
  | responseHead
  | responseBody
  | responseEnd
  | error
  deriving DecidableEq

namespace DirectRecordType

def all : List DirectRecordType :=
  [.clientHello, .serverHello, .requestHead, .requestBody, .requestEnd, .responseHead,
    .responseBody, .responseEnd, .error]

/-- `int(record_type)`. -/
def value : DirectRecordType → ℕ
  | .clientHello => 0x01
  | .serverHello => 0x02
  | .requestHead => 0x10
  | .requestBody => 0x11
  | .requestEnd => 0x12
  | .responseHead => 0x20
  | .responseBody => 0x21
  | .responseEnd => 0x22
  | .error => 0x7F

/-- `DirectRecordType(raw_type)`. -/
def ofValue? (raw : ℕ) : Option DirectRecordType := all.find? fun t => t.value = raw

theorem ofValue?_value (t : DirectRecordType) : ofValue? t.value = some t := by
  cases t <;> rfl

theorem value_lt (t : DirectRecordType) : t.value < 256 := by
  cases t <;> decide

end DirectRecordType

structure PeerDirectError where
  code : String
  message : String
  deriving DecidableEq

def frameRejected (message : String) : PeerDirectError := ⟨"DIRECT_FRAME_REJECTED", message⟩

/-- What a stream that ends early raises. -/
def endedEarly : PeerDirectError := ⟨"DIRECT_QUIC_FAILED", "Direct QUIC Stream ended early."⟩

structure DirectRecord where
  recordType : DirectRecordType
  header : Bytes
  payload : Bytes

/-! ## Numbers in network order -/

/-- `n` in `width` bytes, most significant first. -/
def toBytes : (width n : ℕ) → Bytes
  | 0, _ => []
  | width + 1, n => toBytes width (n / 256) ++ [UInt8.ofNat n]

/-- `int.from_bytes(value, "big")`. -/
def fromBytes (value : Bytes) : ℕ := value.foldl (fun n b => n * 256 + b.toNat) 0

@[simp] theorem length_toBytes (width n : ℕ) : (toBytes width n).length = width := by
  induction width generalizing n with
  | zero => rfl
  | succ width ih => rw [toBytes, List.length_append, ih, List.length_singleton]

theorem fromBytes_concat (value : Bytes) (b : UInt8) :
    fromBytes (value ++ [b]) = fromBytes value * 256 + b.toNat := by
  rw [fromBytes, List.foldl_append]
  rfl

theorem fromBytes_toBytes (width n : ℕ) : fromBytes (toBytes width n) = n % 256 ^ width := by
  induction width generalizing n with
  | zero => rw [Nat.pow_zero, Nat.mod_one]; rfl
  | succ width ih =>
    have hlast : (UInt8.ofNat n).toNat = n % 256 := UInt8.toNat_ofNat'
    rw [toBytes, fromBytes_concat, ih, hlast, Nat.pow_succ', Nat.mod_mul]
    omega

/-- `value[i:j]`. -/
def slice (i j : ℕ) (value : Bytes) : Bytes := (value.take j).drop i

/-! ## The codec -/

def recordHeader (t : DirectRecordType) (payloadLength : ℕ) : Except PeerDirectError Bytes :=
  if payloadLength ≤ maxRecordPayload then
    .ok (magic ++ toBytes 1 version ++ toBytes 1 t.value ++ toBytes 2 0 ++ toBytes 4 payloadLength)
  else .error (frameRejected "Direct Record length is invalid.")

def plainRecord (t : DirectRecordType) (payload : Bytes) : Except PeerDirectError Bytes := do
  let header ← recordHeader t payload.length
  return header ++ payload

def parseRecord (value : Bytes) : Except PeerDirectError DirectRecord :=
  if value.length < headerSize then .error (frameRejected "Direct Record is truncated.")
  else
    let header := value.take headerSize
    if slice 0 4 header ≠ magic ∨ fromBytes (slice 4 5 header) ≠ version ∨
        fromBytes (slice 6 8 header) ≠ 0 then
      .error (frameRejected "Direct Record header is invalid.")
    else
      match DirectRecordType.ofValue? (fromBytes (slice 5 6 header)) with
      | none => .error (frameRejected "Direct Record type is invalid.")
      | some t =>
        let size := fromBytes (slice 8 12 header)
        if maxRecordPayload < size ∨ value.length ≠ headerSize + size then
          .error (frameRejected "Direct Record length does not match its payload.")
        else .ok ⟨t, header, value.drop headerSize⟩

/-- `await _read_record(reader)`, on the bytes that will arrive before the stream ends. -/
def readRecord : Read UInt8 PeerDirectError DirectRecord :=
  (readexactly endedEarly headerSize).bind fun header input =>
    let size := fromBytes (slice 8 12 header)
    if maxRecordPayload < size then .error (frameRejected "Direct Record is too large.")
    else
      (readexactly endedEarly size).bind
        (fun payload input => (parseRecord (header ++ payload)).map fun record => (record, input)) input

/-- One direction of the Noise transport: what is made of a text by the number of the
message and the associated data, and back. -/
structure CipherState where
  encryptWithAd : ℕ → Bytes → Bytes → Bytes
  decryptWithAd : ℕ → Bytes → Bytes → Option Bytes

/-- An authenticated cipher with a tag of sixteen bytes. -/
structure CipherState.Correct (c : CipherState) : Prop where
  decrypt_encrypt : ∀ n ad text, c.decryptWithAd n ad (c.encryptWithAd n ad text) = some text
  length_encrypt : ∀ n ad text, (c.encryptWithAd n ad text).length = text.length + 16

/-- `encrypt_record`, the `n`-th of its direction. -/
def encryptRecord (c : CipherState) (n : ℕ) (t : DirectRecordType) (plaintext : Bytes) :
    Except PeerDirectError Bytes :=
  if t = .clientHello ∨ t = .serverHello then
    .error (frameRejected "Hello Records are not Transport Messages.")
  else do
    let header ← recordHeader t (plaintext.length + 16)
    return header ++ c.encryptWithAd n header plaintext

/-- `decrypt_record`, the `n`-th of its direction. -/
def decryptRecord (c : CipherState) (n : ℕ) (value : Bytes) (expected : DirectRecordType) :
    Except PeerDirectError Bytes := do
  let record ← parseRecord value
  if record.recordType ≠ expected then
    throw (frameRejected "Direct Record order is invalid.")
  match c.decryptWithAd n record.header record.payload with
  | none => throw ⟨"DIRECT_NOISE_REJECTED", "Direct Record authentication failed."⟩
  | some text => return text

/-! ## A written record is read back -/

section Header

variable {t : DirectRecordType} {size : ℕ} {header : Bytes}

theorem recordHeader_eq_ok :
    recordHeader t size = .ok header ↔ size ≤ maxRecordPayload ∧
      header = magic ++ toBytes 1 version ++ toBytes 1 t.value ++ toBytes 2 0 ++ toBytes 4 size := by
  rw [recordHeader]
  split_ifs with h
  · exact ⟨fun heq => ⟨h, (Except.ok.inj heq).symm⟩, fun heq => heq.2 ▸ rfl⟩
  · exact ⟨nofun, fun heq => absurd heq.1 h⟩

theorem recordHeader_le (h : recordHeader t size = .ok header) : size ≤ maxRecordPayload :=
  (recordHeader_eq_ok.mp h).1

theorem length_recordHeader (h : recordHeader t size = .ok header) : header.length = headerSize := by
  rw [(recordHeader_eq_ok.mp h).2]
  simp [magic, headerSize]

/-- The fields of a written header. -/
theorem slice_recordHeader (h : recordHeader t size = .ok header) :
    slice 0 4 header = magic ∧ fromBytes (slice 4 5 header) = version ∧
      fromBytes (slice 5 6 header) = t.value ∧ fromBytes (slice 6 8 header) = 0 ∧
      fromBytes (slice 8 12 header) = size := by
  obtain ⟨hsize, rfl⟩ := recordHeader_eq_ok.mp h
  have hnum : size % 256 ^ 4 = size := Nat.mod_eq_of_lt (by rw [maxRecordPayload] at hsize; omega)
  have hvalue : t.value % 256 ^ 1 = t.value := Nat.mod_eq_of_lt (by have := t.value_lt; omega)
  refine ⟨rfl, rfl, ?_, rfl, ?_⟩
  · exact (fromBytes_toBytes 1 t.value).trans hvalue
  · exact (fromBytes_toBytes 4 size).trans hnum

/-- A header and as many bytes as it says are a record. -/
theorem parseRecord_append {payload : Bytes} (h : recordHeader t payload.length = .ok header) :
    parseRecord (header ++ payload) = .ok ⟨t, header, payload⟩ := by
  have hlen := length_recordHeader h
  obtain ⟨hmagic, hversion, htype, hflags, hsize⟩ := slice_recordHeader h
  have htake : (header ++ payload).take headerSize = header := by rw [← hlen, List.take_left]
  have hdrop : (header ++ payload).drop headerSize = payload := by rw [← hlen, List.drop_left]
  have hle := recordHeader_le h
  rw [parseRecord, if_neg (by rw [List.length_append]; omega)]
  dsimp only
  rw [htake, hdrop, htype, hsize, DirectRecordType.ofValue?_value,
    if_neg (by rw [hmagic, hversion, hflags]; simp)]
  exact if_neg (by rw [List.length_append]; omega)

/-- **A header and its payload are read back** from what follows them, and a stream that ends
among them raises. -/
theorem reads_record {payload : Bytes} (h : recordHeader t payload.length = .ok header) :
    Reads endedEarly readRecord (header ++ payload) ⟨t, header, payload⟩ := by
  have hread : Reads endedEarly (readexactly endedEarly headerSize) header header :=
    length_recordHeader h ▸ reads_readexactly endedEarly header
  refine hread.bind ?_
  have hsize := (slice_recordHeader h).2.2.2.2
  have hle := recordHeader_le h
  have hinner : Reads endedEarly
      ((readexactly endedEarly payload.length).bind fun payload' input =>
        (parseRecord (header ++ payload')).map fun record => (record, input))
      (payload ++ []) (⟨t, header, payload⟩ : DirectRecord) := by
    refine (reads_readexactly endedEarly payload).bind ?_
    rw [parseRecord_append h]
    exact Reads.pure _ _
  rw [List.append_nil] at hinner
  have heq : (fun input : Bytes =>
      if maxRecordPayload < fromBytes (slice 8 12 header) then
        Except.error (frameRejected "Direct Record is too large.")
      else (readexactly endedEarly (fromBytes (slice 8 12 header))).bind
        (fun payload input => (parseRecord (header ++ payload)).map fun record => (record, input)) input) =
      (readexactly endedEarly payload.length).bind fun payload' input =>
        (parseRecord (header ++ payload')).map fun record => (record, input) := by
    funext input
    rw [hsize, if_neg (by omega)]
  rw [← heq] at hinner
  exact hinner

end Header

/-- A record is not nothing. -/
theorem readRecord_shorter {input rest : Bytes} {record : DirectRecord}
    (h : readRecord input = .ok (record, rest)) : rest.length < input.length := by
  unfold readRecord Read.bind readexactly at h
  by_cases hlen : input.length < headerSize
  · rw [if_pos hlen] at h
    cases h
  · rw [if_neg hlen] at h
    dsimp only [Except.bind] at h
    split_ifs at h
    dsimp only at h
    cases hparse : parseRecord (input.take headerSize ++
        (input.drop headerSize).take (fromBytes (slice 8 12 (input.take headerSize)))) with
    | error e =>
      rw [hparse] at h
      cases h
    | ok record' =>
      rw [hparse] at h
      cases h
      rw [headerSize] at hlen ⊢
      rw [List.length_drop, List.length_drop]
      omega

/-- The records of a stream. -/
def records : FrameReader UInt8 PeerDirectError DirectRecord := ⟨readRecord, readRecord_shorter⟩

/-! ## Whole records -/

/-- A record as long as its header says, within the limit. -/
def WellFormed (value : Bytes) : Prop :=
  ∃ t header payload, value = header ++ payload ∧ recordHeader t payload.length = .ok header

theorem plainRecord_eq_ok {t : DirectRecordType} {payload value : Bytes}
    (h : plainRecord t payload = .ok value) :
    ∃ header, recordHeader t payload.length = .ok header ∧ value = header ++ payload := by
  unfold plainRecord at h
  cases hheader : recordHeader t payload.length with
  | error e =>
    rw [hheader] at h
    cases h
  | ok header =>
    rw [hheader] at h
    cases h
    exact ⟨header, rfl, rfl⟩

theorem reads_plainRecord {t : DirectRecordType} {payload value : Bytes}
    (h : plainRecord t payload = .ok value) :
    ∃ header, WellFormed value ∧ Reads endedEarly readRecord value ⟨t, header, payload⟩ := by
  obtain ⟨header, hheader, rfl⟩ := plainRecord_eq_ok h
  exact ⟨header, ⟨t, header, payload, rfl, hheader⟩, reads_record hheader⟩

section Encrypted

variable {c : CipherState} {n : ℕ} {t : DirectRecordType} {plaintext value : Bytes}

theorem encryptRecord_eq_ok (h : encryptRecord c n t plaintext = .ok value) :
    ∃ header, recordHeader t (plaintext.length + 16) = .ok header ∧
      value = header ++ c.encryptWithAd n header plaintext := by
  unfold encryptRecord at h
  split_ifs at h
  cases hheader : recordHeader t (plaintext.length + 16) with
  | error e =>
    rw [hheader] at h
    cases h
  | ok header =>
    rw [hheader] at h
    cases h
    exact ⟨header, rfl, rfl⟩

/-- A text that fits with its tag is encrypted. -/
theorem encryptRecord_isOk (c : CipherState) (n : ℕ) (plaintext : Bytes)
    (ht : t ≠ .clientHello ∧ t ≠ .serverHello) (hlen : plaintext.length ≤ maxRecordPayload - 16) :
    ∃ value, encryptRecord c n t plaintext = .ok value := by
  have hle : plaintext.length + 16 ≤ maxRecordPayload := by rw [maxRecordPayload] at hlen ⊢; omega
  unfold encryptRecord
  rw [if_neg (by rw [not_or]; exact ht), recordHeader, if_pos hle]
  exact ⟨_, rfl⟩

theorem decryptRecord_append {header payload : Bytes} (h : recordHeader t payload.length = .ok header)
    (hdecrypt : c.decryptWithAd n header payload = some plaintext) (expected : DirectRecordType) :
    decryptRecord c n (header ++ payload) expected =
      if t ≠ expected then .error (frameRejected "Direct Record order is invalid.") else .ok plaintext := by
  unfold decryptRecord
  rw [parseRecord_append h]
  show (if t ≠ expected then _ else _) = _
  split_ifs
  · rfl
  · show (match c.decryptWithAd n header payload with | none => _ | some text => _) = _
    rw [hdecrypt]
    rfl

/-- **An encrypted record is read back**, decrypts to its text, and is missed where the
stream ends within it. -/
theorem reads_encryptRecord (hc : c.Correct) (h : encryptRecord c n t plaintext = .ok value) :
    WellFormed value ∧ ∃ record : DirectRecord, record.recordType = t ∧
      Reads endedEarly readRecord value record ∧
      ∀ expected, decryptRecord c n (record.header ++ record.payload) expected =
        if t ≠ expected then .error (frameRejected "Direct Record order is invalid.")
        else .ok plaintext := by
  obtain ⟨header, hheader, rfl⟩ := encryptRecord_eq_ok h
  rw [← hc.length_encrypt n header plaintext] at hheader
  exact ⟨⟨t, header, _, rfl, hheader⟩, ⟨t, header, _⟩, rfl, reads_record hheader,
    decryptRecord_append hheader (hc.decrypt_encrypt n header plaintext)⟩

end Encrypted

/-! ## Records written one after another -/

/-- `writer.write(state.encrypt_record(...))` for each of the records, the first of which is the
`n`-th of its direction, up to one that raises. -/
def writeRecords (c : CipherState) : ℕ → List (DirectRecordType × Bytes) → Bytes × Option PeerDirectError
  | _, [] => ([], none)
  | n, (t, plaintext) :: more =>
    match encryptRecord c n t plaintext with
    | .error e => ([], some e)
    | .ok value =>
      let r := writeRecords c (n + 1) more
      (value ++ r.1, r.2)

/-- What is written is made of whole records within the limit. -/
theorem wellFormed_writeRecords {c : CipherState} (hc : c.Correct) (n : ℕ)
    (list : List (DirectRecordType × Bytes)) :
    ∃ values : List Bytes, (writeRecords c n list).1 = values.flatten ∧ ∀ v ∈ values, WellFormed v := by
  induction list generalizing n with
  | nil => exact ⟨[], rfl, by simp⟩
  | cons p more ih =>
    obtain ⟨t, plaintext⟩ := p
    rw [writeRecords]
    cases h : encryptRecord c n t plaintext with
    | error e => exact ⟨[], rfl, by simp⟩
    | ok value =>
      obtain ⟨values, hvalues, hwf⟩ := ih (n + 1)
      refine ⟨value :: values, ?_, ?_⟩
      · show value ++ _ = _
        rw [hvalues, List.flatten_cons]
      · rintro v hv
        rcases List.mem_cons.mp hv with rfl | hv
        · exact (reads_encryptRecord hc h).1
        · exact hwf v hv

end AI2Apps.Peer.Direct
