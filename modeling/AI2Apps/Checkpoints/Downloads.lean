import AI2Apps.Checkpoints.PieceFiles
import AI2Apps.Lib.Choices
import Mathlib.Data.List.Sort

/-!
# The download of a piece

A piece is fetched segment by segment, each from one of the sources of its file.  The choices of
sources are tried in a row until the bytes have the digest of the piece; these are written, and
then the piece is marked.

* `Source.fetchPiece`: what a source gives for a range, of the range's length or nothing.
* `attemptVectors`: the choices that are tried.
* `downloadPiece`: `_download_piece`, as what it does and whether it raises.
* `downloadPiece_delivers`: if a choice gives the right bytes and no more choices exist than may be
  tried, the piece is delivered.
* `checkpoint_pieces`: the plan, the writes and the downloads of an accepted manifest.

The order in which the sources of a file are tried is theirs by a priority that changes with the
clock and the transfers; it is a parameter.
-/

namespace AI2Apps.Checkpoints

open Choices (addNew addUpTo product)
open Regions (Holds Writes)

/-! ## The sources -/

/-- An `HTTPRangePieceSource`.  What its server answers to a range may differ from attempt to attempt:
the chunks of a body, or an error. -/
structure Source where
  provider : Str
  filePath : Str
  maxPieceSize : ℕ
  serve : ℕ → ℕ → ℕ → Except Str (List Bytes)

/-- The loop over the chunks in `_request_range`. -/
def receive (length : ℕ) : Bytes → List Bytes → Except Str Bytes
  | content, [] => if content.length ≠ length then .error (str "range_body_short") else .ok content
  | content, chunk :: rest =>
    let remaining := length - content.length
    let content := content ++ chunk.take (remaining + 1)
    if remaining < chunk.length ∨ length < content.length then .error (str "range_body_excess")
    else receive length content rest

/-- `fetch_piece`. -/
def Source.fetchPiece (source : Source) (attempt : ℕ) (filePath : Str) (offset length : ℕ) :
    Except Str Bytes :=
  if filePath ≠ source.filePath then .error (str "piece source is bound to another file")
  else if length = 0 ∨ source.maxPieceSize < length then .error (str "piece range is invalid")
  else
    match source.serve attempt offset length with
    | .error e => .error e
    | .ok chunks =>
      match receive length [] chunks with
      | .error code => .error (source.provider ++ str " source returned an invalid range: " ++ code)
      | .ok content => .ok content

/-- The bytes of segments, each from its source. -/
def payloadFrom (attempt : ℕ) : List PieceSegment → List Source → Except Str Bytes
  | s :: segments, source :: sources =>
    match source.fetchPiece attempt s.filePath s.fileOffset s.length with
    | .error e => .error e
    | .ok chunk =>
      match payloadFrom attempt segments sources with
      | .error e => .error e
      | .ok payload => .ok (chunk ++ payload)
  | _, _ => .ok []

/-! ## The choices -/

/-- `tuple(rotation % len(items) for items in choices_per_segment)`. -/
def rotationVector (lengths : List ℕ) (rotation : ℕ) : List ℕ := lengths.map fun n => rotation % n

/-- The vectors that are tried, by the numbers of choices. -/
def attemptVectors (maxSourceAttempts : ℕ) (lengths : List ℕ) : Except Str (List (List ℕ)) :=
  match lengths.max? with
  | none => .error (str "max() iterable argument is empty")
  | some longest =>
    if 0 < longest ∧ 0 ∈ lengths then .error (str "integer modulo by zero")
    else
      let vectors := addNew [] ((List.range longest).map (rotationVector lengths))
      .ok ((addUpTo maxSourceAttempts vectors (product (lengths.map List.range))).take maxSourceAttempts)

/-! ## The download -/

/-- The body of the loop: the segments, the choices of each and the vector in step. -/
def attemptPayload (attempt : ℕ) :
    List PieceSegment → List (List Source) → List ℕ → Except Str Bytes
  | s :: segments, choices :: rest, i :: vector =>
    match choices[i]? with
    | none => .error (str "list index out of range")
    | some source =>
      match source.fetchPiece attempt s.filePath s.fileOffset s.length with
      | .error e => .error e
      | .ok chunk =>
        match attemptPayload attempt segments rest vector with
        | .error e => .error e
        | .ok payload => .ok (chunk ++ payload)
  | [], [], [] => .ok []
  | _, _, _ => .error (str "zip() arguments have different lengths")

/-- What all attempts on a piece share. -/
structure Attempting where
  sha256 : Bytes → Str
  taken : Str → ℕ → ℕ
  pieceCount : ℕ
  files : Files
  piece : CheckpointPiece
  choicesPerSegment : List (List Source)

/-- Write the piece and mark it. -/
def Attempting.finish (d : Attempting) (payload : Bytes) : List Event × Option Str :=
  match writePiece d.taken d.files d.piece payload with
  | (writes, some e) => (writes, some e)
  | (writes, none) =>
    if d.pieceCount ≤ d.piece.index then (writes, some (str "piece index is invalid"))
    else (writes ++ [.marked d.piece.index], none)

/-- The loop over the vectors, with the last error. -/
def Attempting.run (d : Attempting) : ℕ → Str → List (List ℕ) → List Event × Option Str
  | _, detail, [] =>
    ([], some (str "piece " ++ JsonText.natText d.piece.index ++ str " could not be verified: " ++ detail))
  | attempt, _, vector :: rest =>
    match attemptPayload attempt d.piece.segments d.choicesPerSegment vector with
    | .error e =>
      let (events, failure) := d.run (attempt + 1) e rest
      (.tried vector :: events, failure)
    | .ok payload =>
      if d.sha256 payload ≠ d.piece.sha256 then
        let (events, failure) := d.run (attempt + 1) (str "piece digest mismatch") rest
        (.tried vector :: events, failure)
      else
        let (events, failure) := d.finish payload
        (.tried vector :: events, failure)

/-- `_download_piece`.  The candidates are by file, and `priority` is `_source_priority` as it is when
the sources of a segment are sorted. -/
def downloadPiece {K : Type} [LinearOrder K] (sha256 : Bytes → Str) (pieceCount maxSourceAttempts : ℕ)
    (priority : PieceSegment → Source → K) (taken : Str → ℕ → ℕ) (files : Files)
    (candidates : Str → List Source) (piece : CheckpointPiece) : List Event × Option Str :=
  let choicesPerSegment := piece.segments.map fun s =>
    (candidates s.filePath).insertionSort fun a b => priority s a ≤ priority s b
  match attemptVectors maxSourceAttempts (choicesPerSegment.map List.length) with
  | .error e => ([], some e)
  | .ok vectors =>
    Attempting.run ⟨sha256, taken, pieceCount, files, piece, choicesPerSegment⟩ 0
      (str "no source attempt succeeded") vectors

/-! ## What the sources give -/

theorem length_receive {length : ℕ} :
    ∀ {chunks : List Bytes} {content result : Bytes}, receive length content chunks = .ok result →
      result.length = length
  | [], content, result, h => by
    unfold receive at h
    split_ifs at h with hlen
    obtain rfl := Except.ok.inj h
    exact not_not.mp hlen
  | chunk :: rest, content, result, h => by
    unfold receive at h
    dsimp only at h
    split_ifs at h with hexcess
    exact length_receive h

/-- A source gives as many bytes as it is asked for. -/
theorem Source.length_fetchPiece {source : Source} {attempt offset length : ℕ} {filePath : Str}
    {chunk : Bytes} (h : source.fetchPiece attempt filePath offset length = .ok chunk) :
    chunk.length = length := by
  unfold Source.fetchPiece at h
  split_ifs at h
  split at h
  · cases h
  · split at h
    · cases h
    · rename_i hreceive
      obtain rfl := Except.ok.inj h
      exact length_receive hreceive

theorem length_attemptPayload {attempt : ℕ} :
    ∀ {segments : List PieceSegment} {choices : List (List Source)} {vector : List ℕ} {payload : Bytes},
      attemptPayload attempt segments choices vector = .ok payload →
      payload.length = (spread segments).length
  | [], [], [], payload, h => by
    obtain rfl := Except.ok.inj h
    rfl
  | s :: segments, choices :: rest, i :: vector, payload, h => by
    unfold attemptPayload at h
    split at h
    · cases h
    · split at h
      · cases h
      · rename_i hchunk
        split at h
        · cases h
        · rename_i hpayload
          obtain rfl := Except.ok.inj h
          rw [List.length_append, Source.length_fetchPiece hchunk, length_attemptPayload hpayload,
            spread_cons, List.length_append, PieceSegment.addresses, length_between,
            Nat.add_sub_cancel_left]
  | [], _ :: _, _, _, h => by cases h
  | [], [], _ :: _, _, h => by cases h
  | _ :: _, [], _, _, h => by cases h
  | _ :: _, _ :: _, [], _, h => by cases h

/-- The vector of the places of sources fetches from these sources. -/
theorem attemptPayload_of_places {attempt : ℕ} :
    ∀ {segments : List PieceSegment} {choices : List (List Source)} {sources : List Source}
      {vector : List ℕ}, choices.length = segments.length → sources.length = segments.length →
      List.Forall₂ (fun i (x : List Source × Source) => x.1[i]? = some x.2) vector (choices.zip sources) →
      attemptPayload attempt segments choices vector = payloadFrom attempt segments sources
  | [], [], [], vector, _, _, h => by
    obtain rfl := List.forall₂_nil_right_iff.mp h
    rfl
  | s :: segments, choices :: rest, source :: sources, vector, hc, hs, h => by
    rw [List.zip_cons_cons] at h
    obtain ⟨i, vector, hi, hrest, rfl⟩ := List.forall₂_cons_right_iff.mp h
    dsimp only at hi
    rw [attemptPayload, payloadFrom, hi]
    dsimp only
    rw [attemptPayload_of_places (Nat.succ.inj hc) (Nat.succ.inj hs) hrest]

/-! ## The vectors -/

theorem rotationVector_mem {lengths : List ℕ} (h : ∀ n ∈ lengths, 0 < n) (rotation : ℕ) :
    rotationVector lengths rotation ∈ product (lengths.map List.range) := by
  rw [Choices.mem_product, rotationVector, List.forall₂_map_left_iff, List.forall₂_map_right_iff]
  exact List.forall₂_same.mpr fun n hn => List.mem_range.mpr (Nat.mod_lt _ (h n hn))

/-- The vectors that are tried are different, and when there are no more choices than may be tried,
each is among them. -/
theorem attemptVectors_spec {maxSourceAttempts : ℕ} {lengths : List ℕ} (hne : lengths ≠ [])
    (hpos : ∀ n ∈ lengths, 0 < n) (hcap : lengths.prod ≤ maxSourceAttempts) :
    ∃ vectors, attemptVectors maxSourceAttempts lengths = .ok vectors ∧ vectors.Nodup ∧
      ∀ v ∈ product (lengths.map List.range), v ∈ vectors := by
  unfold attemptVectors
  rcases hmax : lengths.max? with _ | longest
  · exact absurd (List.max?_eq_none_iff.mp hmax) hne
  · dsimp only
    rw [if_neg fun h => (hpos 0 h.2).false]
    have hnodup : (addNew [] ((List.range longest).map (rotationVector lengths))).Nodup :=
      Choices.nodup_addNew List.nodup_nil
    refine ⟨_, rfl, (Choices.nodup_addUpTo hnodup).sublist (List.take_sublist _ _), fun v hv => ?_⟩
    refine Choices.mem_addUpTo hnodup (fun w hw => ?_) ?_ hv
    · rcases Choices.mem_addNew.mp hw with hw | hw
      · cases hw
      · obtain ⟨rotation, -, rfl⟩ := List.mem_map.mp hw
        exact rotationVector_mem hpos rotation
    · rw [Choices.length_product, List.map_map]
      have hlengths : lengths.map (List.length ∘ List.range) = lengths := by
        have hfun : List.length ∘ List.range = id := funext fun n => List.length_range
        rw [hfun, List.map_id]
      rw [hlengths]
      exact hcap

/-! ## The loop -/

/-- The vectors of the attempts. -/
def Event.vector? : Event → Option (List ℕ)
  | .tried vector => some vector
  | _ => none

/-- What a download that succeeds does: attempts, the writes of a payload with the digest, the mark. -/
structure Delivery (d : Attempting) (vectors : List (List ℕ)) (outcome : List Event × Option Str) : Prop where
  shape : ∃ tried payload, tried <+: vectors ∧ d.sha256 payload = d.piece.sha256 ∧
    payload.length = d.piece.addresses.length ∧
    outcome = (tried.map Event.tried ++ (writePiece d.taken d.files d.piece payload).1 ++
      [.marked d.piece.index], none)

/-- One more attempt before. -/
theorem Delivery.cons {d : Attempting} {vectors : List (List ℕ)} {outcome : List Event × Option Str}
    (h : Delivery d vectors outcome) (vector : List ℕ) :
    Delivery d (vector :: vectors) (.tried vector :: outcome.1, outcome.2) := by
  obtain ⟨tried, payload, htried, hdigest, hlen, rfl⟩ := h.shape
  refine ⟨vector :: tried, payload, ?_, hdigest, hlen, rfl⟩
  obtain ⟨rest, rfl⟩ := htried
  exact ⟨rest, rfl⟩

theorem Attempting.finish_eq {d : Attempting} {payload : Bytes}
    (hwrite : (writePiece d.taken d.files d.piece payload).2 = none) (hindex : d.piece.index < d.pieceCount) :
    d.finish payload =
      ((writePiece d.taken d.files d.piece payload).1 ++ [.marked d.piece.index], none) := by
  unfold Attempting.finish
  generalize writePiece d.taken d.files d.piece payload = written at hwrite ⊢
  obtain ⟨writes, failure⟩ := written
  obtain rfl : failure = none := hwrite
  dsimp only
  rw [if_neg (by omega)]

/-- The loop ends at the latest with a vector that gives the bytes of the piece. -/
theorem Attempting.run_delivers {d : Attempting} {good : List ℕ} (hindex : d.piece.index < d.pieceCount)
    (hwrite : ∀ payload, payload.length = d.piece.addresses.length →
      (writePiece d.taken d.files d.piece payload).2 = none)
    (hgood : ∀ attempt, ∃ payload, attemptPayload attempt d.piece.segments d.choicesPerSegment good =
      .ok payload ∧ d.sha256 payload = d.piece.sha256) :
    ∀ {vectors : List (List ℕ)} {attempt : ℕ} {detail : Str}, good ∈ vectors →
      Delivery d vectors (d.run attempt detail vectors)
  | [], attempt, detail, hmem => absurd hmem List.not_mem_nil
  | vector :: rest, attempt, detail, hmem => by
    unfold Attempting.run
    -- An attempt that fails is not the good one, which is still to come.
    have hrest : ∀ e, vector ≠ good → Delivery d (vector :: rest)
        (.tried vector :: (d.run (attempt + 1) e rest).1, (d.run (attempt + 1) e rest).2) := by
      intro e hne
      have hlater : good ∈ rest := (List.mem_cons.mp hmem).resolve_left hne.symm
      exact (Attempting.run_delivers hindex hwrite hgood hlater).cons vector
    split
    · rename_i e herror
      refine hrest e fun hv => ?_
      obtain ⟨payload, hpayload, -⟩ := hgood attempt
      rw [← hv, herror] at hpayload
      cases hpayload
    · rename_i payload hpayload
      split_ifs with hdigest
      · refine hrest _ fun hv => hdigest ?_
        obtain ⟨payload', hpayload', hdigest'⟩ := hgood attempt
        rw [← hv, hpayload] at hpayload'
        rw [Except.ok.inj hpayload']
        exact hdigest'
      · have hlen : payload.length = d.piece.addresses.length := length_attemptPayload hpayload
        rw [Attempting.finish_eq (hwrite payload hlen) hindex]
        refine ⟨[vector], payload, ⟨rest, rfl⟩, not_not.mp hdigest, hlen, ?_⟩
        rfl

/-! ## The delivery of a piece -/

/-- A piece is delivered: the download succeeds, tries no vector twice, marks the piece when its bytes
are written, and never changes another piece. -/
structure Delivered (sha256 : Bytes → Str) (pieces : List CheckpointPiece) (files : Files)
    (piece : CheckpointPiece) (outcome : List Event × Option Str) : Prop where
  succeeds : outcome.2 = none
  marks : .marked piece.index ∈ outcome.1
  once : (outcome.1.filterMap Event.vector?).Nodup
  written : ∀ before index later, outcome.1 = before ++ .marked index :: later → index = piece.index ∧
    ∃ payload, sha256 payload = piece.sha256 ∧ readPiece (files.after before) piece = some payload
  elsewhere : ∀ before, before <+: outcome.1 → ∀ other ∈ pieces, other ≠ piece →
    readPiece (files.after before) other = readPiece files other

/-- Events that write nothing. -/
theorem after_eq_self {files : Files} :
    ∀ {events : List Event}, (∀ e ∈ events, ∀ path offset data, e ≠ .pwrote path offset data) →
      files.after events = files
  | [], _ => rfl
  | e :: events, h => by
    have he : files.apply e = files := by
      cases e with
      | pwrote path offset data => exact absurd rfl (h _ (List.mem_cons_self ..) path offset data)
      | tried vector => rfl
      | marked index => rfl
    rw [Files.after_cons, he]
    exact after_eq_self fun e he => h e (List.mem_cons_of_mem _ he)

theorem writeView_pwrote {taken : Str → ℕ → ℕ} {path : Str} :
    ∀ {n : ℕ} {view : Bytes} {offset : ℕ}, view.length = n →
      ∀ e ∈ (writeView taken path offset view).1, ∃ p o d, e = .pwrote p o d := by
  intro n
  induction n using Nat.strong_induction_on with
  | _ n ih =>
    intro view offset hn e he
    rw [writeView] at he
    split_ifs at he with hview
    · cases he
    · dsimp only at he
      split_ifs at he with hwritten
      · cases he
      · rcases List.mem_cons.mp he with rfl | he
        · exact ⟨_, _, _, rfl⟩
        · have hpos : 0 < view.length := List.length_pos_iff.mpr hview
          refine ih _ ?_ rfl e he
          rw [List.length_drop]
          omega

theorem writeSegments_pwrote {taken : Str → ℕ → ℕ} {files : Files} {payload : Bytes} :
    ∀ {segments : List PieceSegment} {cursor : ℕ},
      ∀ e ∈ (writeSegments taken files payload cursor segments).1, ∃ p o d, e = .pwrote p o d
  | [], cursor, e, he => by cases he
  | s :: rest, cursor, e, he => by
    unfold writeSegments at he
    split_ifs at he
    · cases he
    · have hview := @writeView_pwrote taken s.filePath _ ((payload.drop cursor).take s.length)
        s.fileOffset rfl
      split at he
      · rename_i hwritten
        rw [hwritten] at hview
        exact hview e he
      · rename_i hwritten
        rw [hwritten] at hview
        rcases List.mem_append.mp he with he | he
        · exact hview e he
        · exact writeSegments_pwrote e he

theorem Delivery.delivered {m : Manifest} {pieces : List CheckpointPiece} {d : Attempting}
    {vectors : List (List ℕ)} {outcome : List Event × Option Str} (hm : Accepted m)
    (hplanned : Planned m pieces) (hpiece : d.piece ∈ pieces)
    (htaken : ∀ path offset, 0 < d.taken path offset) (hfiles : Prepared m d.files)
    (hvectors : vectors.Nodup) (h : Delivery d vectors outcome) :
    Delivered d.sha256 pieces d.files d.piece outcome := by
  obtain ⟨tried, payload, htried, hdigest, hlen, rfl⟩ := h.shape
  have hof := hplanned.pieceOf _ hpiece
  obtain ⟨-, hinside, hwrites⟩ := writePiece_spec htaken hfiles hof.fits (hplanned.nodup hm hpiece) hlen
  have hpwrote : ∀ e ∈ (writePiece d.taken d.files d.piece payload).1, ∃ p o data, e = .pwrote p o data :=
    fun e he => writeSegments_pwrote e he
  generalize (writePiece d.taken d.files d.piece payload).1 = writes at hinside hwrites hpwrote ⊢
  have htries : ∀ e ∈ tried.map Event.tried, ∃ v, e = .tried v := fun e he => by
    obtain ⟨v, -, rfl⟩ := List.mem_map.mp he
    exact ⟨v, rfl⟩
  have hall : Inside d.files d.piece.addresses
      (tried.map Event.tried ++ writes ++ [.marked d.piece.index]) := by
    refine Inside.append (Inside.append ?_ hinside) ?_
    · intro e he
      obtain ⟨v, rfl⟩ := htries e he
      exact ⟨by simp [Event.addresses], by simp⟩
    · intro e he
      rw [List.mem_singleton.mp he]
      exact ⟨by simp [Event.addresses], by simp⟩
  have hpos : ∀ other ∈ pieces, ∀ s ∈ other.segments, 0 < s.length := fun other hother s hs =>
    ((hplanned.pieceOf other hother).fits s hs).nonempty
  refine ⟨rfl, by simp, ?_, ?_, ?_⟩
  · have hnone : writes.filterMap Event.vector? = [] := List.filterMap_eq_nil_iff.mpr fun e he => by
      obtain ⟨p, o, data, rfl⟩ := hpwrote e he
      rfl
    have hsome : (tried.map Event.tried).filterMap Event.vector? = tried := by
      rw [List.filterMap_map]
      exact List.filterMap_some
    rw [List.filterMap_append, List.filterMap_append, hsome, hnone, List.append_nil]
    show (tried ++ []).Nodup
    rw [List.append_nil]
    exact hvectors.sublist htried.sublist
  · intro before index later hsplit
    -- The mark is the last event, since no other event marks.
    have hlast : before = tried.map Event.tried ++ writes ∧ Event.marked index = .marked d.piece.index := by
      rcases List.eq_nil_or_concat later with rfl | ⟨later, last, rfl⟩
      · obtain ⟨hbefore, hmark⟩ := List.append_inj' hsplit rfl
        exact ⟨hbefore.symm, (List.singleton_inj.mp hmark).symm⟩
      · exfalso
        rw [List.concat_eq_append, ← List.cons_append, ← List.append_assoc] at hsplit
        have hfront := (List.append_inj' hsplit rfl).1
        have hmem : Event.marked index ∈ tried.map Event.tried ++ writes := by
          rw [hfront]
          simp
        rcases List.mem_append.mp hmem with hmem | hmem
        · obtain ⟨v, hv⟩ := htries _ hmem
          cases hv
        · obtain ⟨p, o, data, hp⟩ := hpwrote _ hmem
          cases hp
    obtain ⟨rfl, hindex⟩ := hlast
    refine ⟨Event.marked.inj hindex, payload, hdigest, ?_⟩
    have hsame : d.files.after (tried.map Event.tried) = d.files := after_eq_self fun e he p o data hp => by
      obtain ⟨v, rfl⟩ := htries e he
      cases hp
    rw [readPiece_eq_some_iff (hpos _ hpiece), Files.after_append, hsame]
    exact hwrites.holds
  · rintro before ⟨later, hsplit⟩ other hother hne
    dsimp only at hsplit
    rw [← hsplit] at hall
    have hbefore : Inside d.files d.piece.addresses before := fun e he =>
      hall e (List.mem_append_left _ he)
    refine readPiece_congr (hpos other hother) fun a ha => hbefore.frame.1 a fun hpiece' => ?_
    exact hplanned.disjoint_of_ne hm hother hpiece hne ha hpiece'

theorem map_length_choices {K : Type} [LinearOrder K] {priority : PieceSegment → Source → K}
    {candidates : Str → List Source} {segments : List PieceSegment} :
    (segments.map fun s =>
      (candidates s.filePath).insertionSort fun a b => priority s a ≤ priority s b).map List.length =
      segments.map fun s => (candidates s.filePath).length := by
  rw [List.map_map]
  exact List.map_congr_left fun s _ => List.length_insertionSort ..

/-- **If a choice of one source for each segment gives the bytes of a piece, and there are no more choices
than may be tried, the piece is delivered.** -/
theorem downloadPiece_delivers {K : Type} [LinearOrder K] {m : Manifest} {pieces : List CheckpointPiece}
    {sha256 : Bytes → Str} {maxSourceAttempts : ℕ} {priority : PieceSegment → Source → K}
    {taken : Str → ℕ → ℕ} {files : Files} {candidates : Str → List Source} {piece : CheckpointPiece}
    {choice : List Source} (hm : Accepted m) (hplanned : Planned m pieces) (hpiece : piece ∈ pieces)
    (htaken : ∀ path offset, 0 < taken path offset) (hfiles : Prepared m files)
    (hchoice : List.Forall₂ (fun source s => source ∈ candidates s.filePath) choice piece.segments)
    (hgood : ∀ attempt, ∃ payload, payloadFrom attempt piece.segments choice = .ok payload ∧
      sha256 payload = piece.sha256)
    (hcap : (piece.segments.map fun s => (candidates s.filePath).length).prod ≤ maxSourceAttempts) :
    Delivered sha256 pieces files piece
      (downloadPiece sha256 m.pieceHashes.length maxSourceAttempts priority taken files candidates piece) := by
  have hof := hplanned.pieceOf _ hpiece
  have hindex : piece.index < m.pieceHashes.length := by
    have hmem : piece.index ∈ List.range m.pieceHashes.length :=
      hplanned.indices ▸ List.mem_map_of_mem hpiece
    exact List.mem_range.mp hmem
  unfold downloadPiece
  dsimp only
  rw [map_length_choices]
  generalize hchoices : (piece.segments.map fun s =>
    (candidates s.filePath).insertionSort fun a b => priority s a ≤ priority s b) = choicesPerSegment
  have hlengths : choicesPerSegment.map List.length =
      piece.segments.map fun s => (candidates s.filePath).length := by
    rw [← hchoices, map_length_choices]
  have hmem : List.Forall₂ (fun source choices => source ∈ choices) choice choicesPerSegment := by
    rw [← hchoices, List.forall₂_map_right_iff]
    exact hchoice.imp fun source s hs => (List.mem_insertionSort _).mpr hs
  obtain ⟨good, hproduct, hplaces⟩ := Choices.exists_places hmem
  have hrange : choicesPerSegment.map (fun xs => List.range xs.length) =
      (piece.segments.map fun s => (candidates s.filePath).length).map List.range := by
    rw [← hlengths, List.map_map]
    rfl
  rw [hrange] at hproduct
  have hpos : ∀ n ∈ piece.segments.map fun s => (candidates s.filePath).length, 0 < n := by
    intro n hn
    rw [← hlengths] at hn
    obtain ⟨xs, hxs, rfl⟩ := List.mem_map.mp hn
    exact Choices.length_pos hmem xs hxs
  obtain ⟨vectors, hvectors, hnodup, hcomplete⟩ :=
    attemptVectors_spec (by rw [Ne, List.map_eq_nil_iff]; exact hof.segments) hpos hcap
  rw [hvectors]
  dsimp only
  have hlen : choicesPerSegment.length = piece.segments.length := by rw [← hchoices, List.length_map]
  refine Delivery.delivered hm hplanned (d := ⟨sha256, taken, m.pieceHashes.length, files, piece, choicesPerSegment⟩)
    hpiece htaken hfiles hnodup ?_
  refine Attempting.run_delivers hindex (fun payload hpayload => ?_) (fun attempt => ?_)
    (hcomplete good hproduct)
  · exact (writePiece_spec htaken hfiles hof.fits (hplanned.nodup hm hpiece) hpayload).1
  · obtain ⟨payload, hpayload, hdigest⟩ := hgood attempt
    refine ⟨payload, ?_, hdigest⟩
    dsimp only
    rw [attemptPayload_of_places hlen hchoice.length_eq hplaces]
    exact hpayload

/-! ## The law of the pieces -/

/-- What the plan, the writes and the downloads of a manifest do. -/
structure PieceLaw (m : Manifest) (pieces : List CheckpointPiece) : Prop where
  /-- The segments in order are the bytes of the files in order. -/
  enumerates : pieces.flatMap CheckpointPiece.addresses = stream m.files
  /-- No byte comes twice. -/
  nodup : (stream m.files).Nodup
  full : ∀ p ∈ pieces, p.index + 1 < pieces.length → p.length = m.pieceSize
  /-- Pieces that are written in any order are the files in a row. -/
  concat : ∀ (taken : Str → ℕ → ℕ) (payload : CheckpointPiece → Bytes) (files : Files)
    (order : List CheckpointPiece), (∀ path offset, 0 < taken path offset) → Prepared m files →
    order.Perm pieces → (∀ p ∈ pieces, (payload p).length = p.length) →
    m.files.flatMap (writePieces taken payload files order).content = pieces.flatMap payload
  delivers : ∀ {K : Type} [LinearOrder K] (sha256 : Bytes → Str) (maxSourceAttempts : ℕ)
    (priority : PieceSegment → Source → K) (taken : Str → ℕ → ℕ) (files : Files)
    (candidates : Str → List Source), ∀ piece ∈ pieces, ∀ choice : List Source,
    (∀ path offset, 0 < taken path offset) → Prepared m files →
    List.Forall₂ (fun source s => source ∈ candidates s.filePath) choice piece.segments →
    (∀ attempt, ∃ payload, payloadFrom attempt piece.segments choice = .ok payload ∧
      sha256 payload = piece.sha256) →
    (piece.segments.map fun s => (candidates s.filePath).length).prod ≤ maxSourceAttempts →
    Delivered sha256 pieces files piece
      (downloadPiece sha256 m.pieceHashes.length maxSourceAttempts priority taken files candidates piece)

/-- **The plan of a manifest that is parsed does not raise, and keeps the law of the pieces.** -/
theorem checkpoint_pieces {raw : Json.Object} {m : Manifest} (h : parse raw = .ok m) :
    ∃ pieces, plan m = .ok pieces ∧ PieceLaw m pieces := by
  have hm := parse_accepted h
  obtain ⟨pieces, hplan, hplanned⟩ := plan_eq_ok hm
  have hcount : pieces.length = m.pieceHashes.length := by
    have := congrArg List.length hplanned.indices
    rw [List.length_map, List.length_range] at this
    exact this
  exact ⟨pieces, hplan,
    { enumerates := hplanned.enumerates
      nodup := nodup_stream hm
      full := fun p hp hlast => (hplanned.pieceOf p hp).full hm (hcount ▸ hlast)
      concat := fun taken payload files order htaken hfiles horder hlen =>
        writePieces_concat hm hplanned htaken hfiles horder hlen
      delivers := fun sha256 maxSourceAttempts priority taken files candidates piece hpiece choice htaken
        hfiles hchoice hgood hcap =>
        downloadPiece_delivers hm hplanned hpiece htaken hfiles hchoice hgood hcap }⟩

/-- The digest of the bytes of `abc`. -/
def digestOfAbc : Str := str "ba7816bf8f01cfea414140de5dae2223b00361a396177a9cb410ff61f20015ad"

def digestOfA : Str := str "ca978112ca1bbdcafac231b39a23dc4da786eff8147c4e72b9807785afee48bb"

def digestOfBc : Str := str "1e0bbd6c686ba050b8eb03ffeedc64fdc9d80947fce821abbe5d6dc8d252c5ac"

/-- A manifest of two files and one piece that spans both. -/
def spanningRaw : Json.Object :=
  [(str "estimatedSizeBytes", .int 3),
    (str "files", .arr [.obj [(str "path", .str (str "a")), (str "size", .int 1),
      (str "sha256", .str digestOfA)], .obj [(str "path", .str (str "bc")), (str "size", .int 2),
      (str "sha256", .str digestOfBc)]]),
    (str "pieceSize", .int 1048576), (str "pieceHashes", .arr [.str digestOfAbc])]

def spanning : Manifest :=
  ⟨3, [⟨str "a", 1, digestOfA⟩, ⟨str "bc", 2, digestOfBc⟩], 1048576, [digestOfAbc]⟩

/-- A source that fails at first, and then lies. -/
def failing : Source :=
  ⟨str "modelscope", str "a", 67108864, fun attempt _ _ =>
    if attempt = 0 then .error (str "unreachable") else .ok [[98]]⟩

def honest (filePath : Str) (chunks : List Bytes) : Source :=
  ⟨str "huggingface", filePath, 67108864, fun _ _ _ => .ok chunks⟩

def spanningSources (filePath : Str) : List Source :=
  if filePath = str "a" then [failing, honest filePath [[97]]] else [honest filePath [[98], [99]]]

/-- Both files, not yet written. -/
def spanningFiles (filePath : Str) : Option Bytes :=
  some (if filePath = str "a" then [0] else [0, 0])

/-- The one piece of the manifest is delivered into both files, for the first of them by the second
source. -/
theorem checkpoint_pieces_spanning :
    ∃ pieces, plan spanning = .ok pieces ∧ ∀ piece ∈ pieces, piece.segments.length = 2 ∧
      Delivered (fun bytes => if bytes = [97, 98, 99] then digestOfAbc else []) pieces spanningFiles piece
        (downloadPiece (fun bytes => if bytes = [97, 98, 99] then digestOfAbc else []) 1 2
          (fun _ _ => (0 : ℕ)) (fun _ _ => 1) spanningFiles spanningSources piece) := by
  obtain ⟨pieces, hplan, hlaw⟩ := checkpoint_pieces (by decide : parse spanningRaw = .ok spanning)
  refine ⟨pieces, hplan, fun piece hpiece => ?_⟩
  have hpieces : plan spanning = .ok
      [⟨0, 0, 3, digestOfAbc, [⟨str "a", 0, 1⟩, ⟨str "bc", 0, 2⟩]⟩] := by decide
  rw [hplan] at hpieces
  obtain rfl := Except.ok.inj hpieces
  obtain rfl := List.mem_singleton.mp hpiece
  refine ⟨rfl, hlaw.delivers _ 2 _ _ _ _ _ hpiece [honest (str "a") [[97]], honest (str "bc") [[98], [99]]]
    (fun _ _ => Nat.one_pos) ?_ ?_ ?_ (by decide)⟩
  · intro f hf
    rcases List.mem_cons.mp hf with rfl | hf
    · exact ⟨[0], rfl, rfl⟩
    · obtain rfl := List.mem_singleton.mp hf
      exact ⟨[0, 0], rfl, rfl⟩
  · exact .cons (List.mem_cons_of_mem _ (List.mem_singleton.mpr rfl))
      (.cons (List.mem_singleton.mpr rfl) .nil)
  · exact fun attempt => ⟨[97, 98, 99], rfl, if_pos rfl⟩

end AI2Apps.Checkpoints
