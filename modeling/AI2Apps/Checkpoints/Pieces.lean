import AI2Apps.Checkpoints.Manifests

/-!
# The plan of the pieces

`plan_checkpoint_pieces` lays the pieces over the stream of all bytes and cuts each into
segments, one for each file it covers.

* `plan`: the plan, with the file cursor that is carried from piece to piece.
* `addresses`, `stream`: the bytes of a piece, and all bytes of the files in order.
* `plan_eq_ok`: the plan of an accepted manifest.
* `Planned`: the pieces enumerate every byte once, in order, and all but the last are full.
-/

namespace AI2Apps.Checkpoints

structure PieceSegment where
  filePath : Str
  fileOffset : ℕ
  length : ℕ
  deriving DecidableEq

structure CheckpointPiece where
  index : ℕ
  streamOffset : ℕ
  length : ℕ
  sha256 : Str
  segments : List PieceSegment
  deriving DecidableEq

/-! ## The plan -/

/-- The first loop: the files from the one the cursor is in, and where it starts. -/
def skip (cursor : ℕ) : ℕ → List CheckpointFile → ℕ × List CheckpointFile
  | start, [] => (start, [])
  | start, f :: rest => if start + f.size ≤ cursor then skip cursor (start + f.size) rest else (start, f :: rest)

/-- The second loop: the segments from the cursor on, and where it stops.  A file that is not used
up ends the piece. -/
def cover (pieceEnd : ℕ) : ℕ → ℕ → List CheckpointFile → Except Str (List PieceSegment × ℕ)
  | cursor, _, [] => .ok ([], cursor)
  | cursor, start, f :: rest =>
    if cursor < pieceEnd then
      let fileOffset := cursor - start
      let length := min (pieceEnd - cursor) (f.size - fileOffset)
      if length = 0 then .error (str "piece plan does not cover file bytes")
      else if fileOffset + length = f.size then
        match cover pieceEnd (cursor + length) (start + f.size) rest with
        | .error e => .error e
        | .ok (segments, last) => .ok (⟨f.path, fileOffset, length⟩ :: segments, last)
      else .ok ([⟨f.path, fileOffset, length⟩], cursor + length)
    else .ok ([], cursor)

/-- The loop over the piece hashes, with the cursor into the files. -/
def planFrom (pieceSize total : ℕ) :
    ℕ → ℕ → List CheckpointFile → List Str → Except Str (List CheckpointPiece)
  | _, _, _, [] => .ok []
  | index, start, files, hash :: rest =>
    let streamOffset := index * pieceSize
    let pieceEnd := min (streamOffset + pieceSize) total
    let (start, files) := skip streamOffset start files
    match cover pieceEnd streamOffset start files with
    | .error e => .error e
    | .ok (segments, cursor) =>
      if cursor ≠ pieceEnd ∨ segments = [] then .error (str "piece plan does not cover manifest bytes")
      else
        match planFrom pieceSize total (index + 1) start files rest with
        | .error e => .error e
        | .ok pieces => .ok (⟨index, streamOffset, pieceEnd - streamOffset, hash, segments⟩ :: pieces)

/-- `plan_checkpoint_pieces`. -/
def plan (m : Manifest) : Except Str (List CheckpointPiece) :=
  planFrom m.pieceSize m.estimatedSizeBytes 0 0 m.files m.pieceHashes

/-! ## Bytes -/

/-- A byte of a file. -/
abbrev Address := Str × ℕ

/-- The bytes of a file from an offset to another. -/
def between (path : Str) (first last : ℕ) : List Address :=
  (List.range' first (last - first)).map fun i => (path, i)

def PieceSegment.addresses (s : PieceSegment) : List Address :=
  between s.filePath s.fileOffset (s.fileOffset + s.length)

def CheckpointPiece.addresses (p : CheckpointPiece) : List Address :=
  p.segments.flatMap PieceSegment.addresses

/-- All bytes of the files, in order. -/
def stream (files : List CheckpointFile) : List Address :=
  files.flatMap fun f => between f.path 0 f.size

theorem length_between (path : Str) (first last : ℕ) : (between path first last).length = last - first := by
  rw [between, List.length_map, List.length_range']

theorem length_stream (files : List CheckpointFile) : (stream files).length = totalSize files := by
  rw [stream, List.length_flatMap, totalSize]
  exact congrArg List.sum (List.map_congr_left fun f _ => length_between f.path 0 f.size)

theorem between_append (path : Str) {first mid last : ℕ} (h : first ≤ mid) (h' : mid ≤ last) :
    between path first mid ++ between path mid last = between path first last := by
  have hrange : List.range' first (mid - first) ++ List.range' (first + (mid - first)) (last - mid) =
      List.range' first (mid - first + (last - mid)) := List.range'_append_1
  rw [show first + (mid - first) = mid by omega,
    show mid - first + (last - mid) = last - first by omega] at hrange
  rw [between, between, between, ← List.map_append, hrange]

theorem drop_between (path : Str) {first mid last : ℕ} (h : first ≤ mid) (h' : mid ≤ last) :
    (between path first last).drop (mid - first) = between path mid last := by
  rw [← between_append path h h']
  exact List.drop_left' (length_between path first mid)

theorem take_between (path : Str) {first mid last : ℕ} (h : first ≤ mid) (h' : mid ≤ last) :
    (between path first last).take (mid - first) = between path first mid := by
  rw [← between_append path h h']
  exact List.take_left' (length_between path first mid)

theorem stream_cons (f : CheckpointFile) (rest : List CheckpointFile) :
    stream (f :: rest) = between f.path 0 f.size ++ stream rest := by
  rw [stream, List.flatMap_cons]
  rfl

theorem totalSize_cons (f : CheckpointFile) (rest : List CheckpointFile) :
    totalSize (f :: rest) = f.size + totalSize rest := by
  rw [totalSize, List.map_cons, List.sum_cons]
  rfl

/-! ## The segments of a piece -/

/-- Segments with bytes, each in a file. -/
structure Fits (files : List CheckpointFile) (s : PieceSegment) : Prop where
  nonempty : 0 < s.length
  inside : ∃ f ∈ files, f.path = s.filePath ∧ s.fileOffset + s.length ≤ f.size

variable {files all : List CheckpointFile} {m : Manifest}

theorem Fits.cons {s : PieceSegment} (h : Fits files s) (f : CheckpointFile) : Fits (f :: files) s := by
  obtain ⟨g, hg, hpath⟩ := h.inside
  exact ⟨h.nonempty, g, List.mem_cons_of_mem _ hg, hpath⟩

/-- A cursor in the first of the files. -/
structure InFirst (cursor start : ℕ) (files : List CheckpointFile) : Prop where
  start_le : start ≤ cursor
  lt : ∀ f rest, files = f :: rest → cursor < start + f.size

/-- What the second loop covers: the stream from the cursor to the end of the piece. -/
theorem cover_spec {pieceEnd : ℕ} :
    ∀ {files : List CheckpointFile} {cursor start : ℕ}, (∀ f ∈ files, 0 < f.size) →
      InFirst cursor start files → cursor ≤ pieceEnd → pieceEnd ≤ start + totalSize files →
      ∃ segments, cover pieceEnd cursor start files = .ok (segments, pieceEnd) ∧
        (cursor < pieceEnd → segments ≠ []) ∧ (∀ s ∈ segments, Fits files s) ∧
        segments.flatMap PieceSegment.addresses =
          ((stream files).drop (cursor - start)).take (pieceEnd - cursor)
  | [], cursor, start, _, hfirst, hend, htotal => by
    have hstart := hfirst.start_le
    have hcursor : cursor = pieceEnd := by
      rw [totalSize, List.map_nil, List.sum_nil] at htotal
      omega
    subst hcursor
    exact ⟨[], rfl, fun h => absurd h (lt_irrefl _), by simp, by simp [stream]⟩
  | f :: rest, cursor, start, hsizes, hfirst, hend, htotal => by
    have hstart := hfirst.start_le
    have hlt := hfirst.lt f rest rfl
    rw [totalSize_cons] at htotal
    unfold cover
    by_cases hcursor : cursor < pieceEnd
    · rw [if_pos hcursor]
      dsimp only
      have hoff : cursor - start ≤ f.size := by omega
      have hdrop : (stream (f :: rest)).drop (cursor - start) =
          between f.path (cursor - start) f.size ++ stream rest := by
        rw [stream_cons, List.drop_append_of_le_length (by rw [length_between]; omega)]
        rw [show cursor - start = cursor - start - 0 by omega, drop_between f.path (Nat.zero_le _) hoff]
        rfl
      rw [if_neg (by omega)]
      by_cases hfull : cursor - start + min (pieceEnd - cursor) (f.size - (cursor - start)) = f.size
      · -- The file is used up, and the rest of the piece starts with the next one.
        rw [if_pos hfull]
        have hmin : min (pieceEnd - cursor) (f.size - (cursor - start)) = f.size - (cursor - start) := by
          omega
        have hnext : cursor + (f.size - (cursor - start)) = start + f.size := by omega
        rw [hmin, hnext]
        have hfirst' : InFirst (start + f.size) (start + f.size) rest :=
          ⟨le_rfl, fun g rest' hg => by
            have := hsizes g (by rw [hg]; simp)
            omega⟩
        obtain ⟨segments, hcover, -, hfits, haddresses⟩ := cover_spec
          (fun g hg => hsizes g (List.mem_cons_of_mem _ hg)) hfirst' (by omega)
          (by omega : pieceEnd ≤ start + f.size + totalSize rest)
        rw [hcover]
        refine ⟨_, rfl, fun _ => List.cons_ne_nil _ _, ?_, ?_⟩
        · intro s hs
          rcases List.mem_cons.mp hs with rfl | hs
          · exact ⟨by dsimp only; omega, f, List.mem_cons_self .., rfl, by dsimp only; omega⟩
          · exact (hfits s hs).cons f
        · rw [List.flatMap_cons, haddresses, hdrop, PieceSegment.addresses]
          dsimp only
          have hall : (between f.path (cursor - start) f.size).take (pieceEnd - cursor) =
              between f.path (cursor - start) f.size :=
            List.take_of_length_le (by rw [length_between]; omega)
          rw [show cursor - start + (f.size - (cursor - start)) = f.size by omega, Nat.sub_self,
            List.drop_zero, List.take_append, length_between, hall,
            show pieceEnd - cursor - (f.size - (cursor - start)) = pieceEnd - (start + f.size) by omega]
      · -- The piece ends inside the file.
        rw [if_neg hfull]
        have hmin : min (pieceEnd - cursor) (f.size - (cursor - start)) = pieceEnd - cursor := by omega
        rw [hmin, show cursor + (pieceEnd - cursor) = pieceEnd by omega]
        refine ⟨_, rfl, fun _ => List.cons_ne_nil _ _, ?_, ?_⟩
        · intro s hs
          obtain rfl := List.mem_singleton.mp hs
          exact ⟨by dsimp only; omega, f, List.mem_cons_self .., rfl, by dsimp only; omega⟩
        · rw [List.flatMap_singleton, hdrop, PieceSegment.addresses]
          dsimp only
          rw [List.take_append_of_le_length (by rw [length_between]; omega)]
          have htake := @take_between f.path (cursor - start) (cursor - start + (pieceEnd - cursor))
            f.size (by omega) (by omega)
          rw [← htake]
          congr 1
          omega
    · rw [if_neg hcursor]
      have hcursor' : cursor = pieceEnd := by omega
      subst hcursor'
      exact ⟨[], rfl, fun h => absurd h hcursor, by simp, by simp⟩

/-! ## The file a piece starts in -/

theorem totalSize_append (pre files : List CheckpointFile) :
    totalSize (pre ++ files) = totalSize pre + totalSize files := by
  rw [totalSize, List.map_append, List.sum_append]
  rfl

theorem stream_append (pre files : List CheckpointFile) : stream (pre ++ files) = stream pre ++ stream files :=
  List.flatMap_append

/-- The files that are left from a cursor on, and where they start in the stream. -/
structure Left (all : List CheckpointFile) (start : ℕ) (files : List CheckpointFile) : Prop where
  split : ∃ pre, all = pre ++ files ∧ start = totalSize pre

theorem Left.drop {start : ℕ} (h : Left all start files) (n : ℕ) :
    (stream all).drop (start + n) = (stream files).drop n := by
  obtain ⟨pre, rfl, rfl⟩ := h.split
  rw [stream_append, ← List.drop_drop, List.drop_left' (length_stream pre)]

theorem Left.total {start : ℕ} (h : Left all start files) :
    start + totalSize files = totalSize all := by
  obtain ⟨pre, rfl, rfl⟩ := h.split
  exact (totalSize_append pre files).symm

theorem Left.subset {start : ℕ} (h : Left all start files) :
    ∀ f ∈ files, f ∈ all := by
  obtain ⟨pre, rfl, -⟩ := h.split
  exact fun f hf => List.mem_append_right pre hf

/-- What the first loop finds. -/
theorem skip_spec {all : List CheckpointFile} {cursor : ℕ} :
    ∀ {files : List CheckpointFile} {start : ℕ}, Left all start files → start ≤ cursor →
      Left all (skip cursor start files).1 (skip cursor start files).2 ∧
        InFirst cursor (skip cursor start files).1 (skip cursor start files).2
  | [], start, hleft, hstart => ⟨hleft, hstart, fun f rest h => by cases h⟩
  | f :: rest, start, hleft, hstart => by
    unfold skip
    split_ifs with hpast
    · refine skip_spec ⟨?_⟩ hpast
      obtain ⟨pre, hall, hpre⟩ := hleft.split
      refine ⟨pre ++ [f], by rw [hall, List.append_assoc]; rfl, ?_⟩
      rw [totalSize_append, totalSize_cons, hpre]
      rfl
    · refine ⟨hleft, hstart, fun g rest' h => ?_⟩
      obtain ⟨rfl, -⟩ := List.cons.inj h
      exact not_le.mp hpast

/-! ## The plan of an accepted manifest -/

/-- A piece of the plan covers its part of the stream. -/
structure PieceOf (m : Manifest) (p : CheckpointPiece) : Prop where
  sha256 : m.pieceHashes[p.index]? = some p.sha256
  streamOffset : p.streamOffset = p.index * m.pieceSize
  offset_lt : p.streamOffset < totalSize m.files
  length : p.length = min m.pieceSize (totalSize m.files - p.streamOffset)
  segments : p.segments ≠ []
  fits : ∀ s ∈ p.segments, Fits m.files s
  addresses : p.addresses = ((stream m.files).drop p.streamOffset).take p.length

theorem PieceOf.length_addresses {p : CheckpointPiece} (h : PieceOf m p) :
    p.addresses.length = p.length := by
  rw [h.addresses, List.length_take, List.length_drop, length_stream, h.length]
  omega

/-- There are as many pieces as start before the end of the stream. -/
theorem lt_pieceCount {total pieceSize index : ℕ} (h : index < pieceCount total pieceSize)
    (hsize : 0 < pieceSize) : index * pieceSize < total := by
  have hle := (Nat.le_div_iff_mul_le hsize).mp (h : index + 1 ≤ (total + pieceSize - 1) / pieceSize)
  rw [Nat.succ_mul] at hle
  omega

theorem total_le {total pieceSize : ℕ} (hsize : 0 < pieceSize) :
    total ≤ pieceCount total pieceSize * pieceSize := by
  have hlt := (Nat.div_lt_iff_lt_mul hsize).mp (Nat.lt_succ_self ((total + pieceSize - 1) / pieceSize))
  rw [Nat.succ_mul] at hlt
  unfold pieceCount
  omega

theorem planFrom_spec {m : Manifest} (hm : Accepted m) :
    ∀ {hashes : List Str} {index start : ℕ} {files : List CheckpointFile},
      m.pieceHashes.drop index = hashes → index ≤ m.pieceHashes.length →
      Left m.files start files → start ≤ index * m.pieceSize →
      ∃ pieces, planFrom m.pieceSize (totalSize m.files) index start files hashes = .ok pieces ∧
        pieces.map CheckpointPiece.index = List.range' index hashes.length ∧
        (∀ p ∈ pieces, PieceOf m p) ∧
        pieces.flatMap CheckpointPiece.addresses = (stream m.files).drop (index * m.pieceSize)
  | [], index, start, files, hhashes, hindex, _, _ => by
    refine ⟨[], rfl, rfl, by simp, ?_⟩
    have hlen := congrArg List.length hhashes
    rw [List.length_drop, List.length_nil] at hlen
    have hcount : index = pieceCount (totalSize m.files) m.pieceSize := by
      rw [← hm.hashes]
      omega
    rw [List.flatMap_nil, List.drop_of_length_le]
    rw [length_stream, hcount]
    exact total_le hm.pieceSize
  | hash :: rest, index, start, files, hhashes, hindex, hleft, hstart => by
    have hlen := congrArg List.length hhashes
    rw [List.length_drop, List.length_cons] at hlen
    have hlt : index < m.pieceHashes.length := by omega
    have hhash : m.pieceHashes[index]? = some hash := by
      rw [← List.head?_drop, hhashes, List.head?_cons]
    have hrest : m.pieceHashes.drop (index + 1) = rest := by
      rw [← List.tail_drop, hhashes, List.tail_cons]
    have hoffset : index * m.pieceSize < totalSize m.files := lt_pieceCount (hm.hashes ▸ hlt) hm.pieceSize
    obtain ⟨hleft', hfirst⟩ := skip_spec hleft hstart
    unfold planFrom
    dsimp only
    generalize hskip : skip (index * m.pieceSize) start files = skipped at hleft' hfirst
    obtain ⟨start', files'⟩ := skipped
    dsimp only at hleft' hfirst ⊢
    have hend : index * m.pieceSize ≤ min (index * m.pieceSize + m.pieceSize) (totalSize m.files) := by
      omega
    obtain ⟨segments, hcover, hnonempty, hfits, haddresses⟩ := cover_spec
      (fun f hf => hm.sizes f (hleft'.subset f hf)) hfirst hend
      (by rw [hleft'.total]; exact min_le_right _ _)
    have hsegments : segments ≠ [] := hnonempty (by have := hm.pieceSize; omega)
    have hslice : segments.flatMap PieceSegment.addresses =
        ((stream m.files).drop (index * m.pieceSize)).take
          (min (index * m.pieceSize + m.pieceSize) (totalSize m.files) - index * m.pieceSize) := by
      rw [haddresses, ← hleft'.drop, show start' + (index * m.pieceSize - start') = index * m.pieceSize by
        have := hfirst.start_le
        omega]
    obtain ⟨pieces, hpieces, hindices, hall, hstream⟩ := planFrom_spec hm hrest hlt hleft'
      (by have := hfirst.start_le; rw [Nat.add_mul]; omega)
    rw [hcover]
    dsimp only
    rw [if_neg (by simp [hsegments]), hpieces]
    refine ⟨_, rfl, ?_, ?_, ?_⟩
    · rw [List.map_cons, hindices, List.length_cons, List.range'_succ]
    · rintro p hp
      rcases List.mem_cons.mp hp with rfl | hp
      · exact
          { sha256 := hhash
            streamOffset := rfl
            offset_lt := hoffset
            length := by dsimp only; omega
            segments := hsegments
            fits := fun s hs => by
              obtain ⟨f, hf, hpath⟩ := (hfits s hs).inside
              exact ⟨(hfits s hs).nonempty, f, hleft'.subset f hf, hpath⟩
            addresses := hslice }
      · exact hall p hp
    · rw [List.flatMap_cons, hstream, CheckpointPiece.addresses, hslice, Nat.add_mul, Nat.one_mul]
      by_cases hfull : index * m.pieceSize + m.pieceSize ≤ totalSize m.files
      · rw [Nat.min_eq_left hfull, Nat.add_sub_cancel_left, ← List.drop_drop, List.take_append_drop]
      · -- The last piece takes what is left.
        have hnone : (stream m.files).drop (index * m.pieceSize + m.pieceSize) = [] :=
          List.drop_of_length_le (by rw [length_stream]; omega)
        have hlast : ((stream m.files).drop (index * m.pieceSize)).take
            (totalSize m.files - index * m.pieceSize) = (stream m.files).drop (index * m.pieceSize) :=
          List.take_of_length_le (by rw [List.length_drop, length_stream])
        rw [Nat.min_eq_right (le_of_lt (not_le.mp hfull)), hnone, hlast, List.append_nil]

/-- The pieces of a manifest enumerate the bytes of its files. -/
structure Planned (m : Manifest) (pieces : List CheckpointPiece) : Prop where
  indices : pieces.map CheckpointPiece.index = List.range m.pieceHashes.length
  pieceOf : ∀ p ∈ pieces, PieceOf m p
  enumerates : pieces.flatMap CheckpointPiece.addresses = stream m.files

/-- **The plan of an accepted manifest does not raise, and covers its bytes once, in order.** -/
theorem plan_eq_ok (hm : Accepted m) : ∃ pieces, plan m = .ok pieces ∧ Planned m pieces := by
  obtain ⟨pieces, hpieces, hindices, hall, hstream⟩ :=
    @planFrom_spec m hm (m.pieceHashes.drop 0) 0 0 m.files rfl (Nat.zero_le _) ⟨[], rfl, rfl⟩
      (Nat.zero_le _)
  refine ⟨pieces, ?_, ?_, hall, ?_⟩
  · rw [plan, hm.total, ← hpieces, List.drop_zero]
  · rw [hindices, List.drop_zero, List.range_eq_range']
  · rw [hstream, Nat.zero_mul, List.drop_zero]

/-- **Every piece but the last is full.** -/
theorem PieceOf.full (hm : Accepted m) {p : CheckpointPiece} (h : PieceOf m p)
    (hlast : p.index + 1 < m.pieceHashes.length) : p.length = m.pieceSize := by
  have hnext := lt_pieceCount (hm.hashes ▸ hlast) hm.pieceSize
  rw [Nat.add_mul, Nat.one_mul] at hnext
  rw [h.length, h.streamOffset]
  omega

end AI2Apps.Checkpoints
