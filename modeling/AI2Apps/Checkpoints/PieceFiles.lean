import AI2Apps.Checkpoints.Pieces
import AI2Apps.Lib.Regions

/-!
# The bytes of the pieces

Each file of a checkpoint has a partial file of its size, and a piece is written to its segments.
A `pwrite` may take fewer bytes than it is given, and the rest is given again.

* `writePiece`: the writes of `_write_piece`, and whether it raises.
* `readPiece`: `_read_piece`.
* `writePiece_spec`: a piece is written to its own bytes.
* `readPiece_eq_some_iff`: what is read is what the bytes of the piece hold.
* `writePieces_concat`: after all pieces, in any order, the files are the pieces in a row.
-/

namespace AI2Apps.Checkpoints

open Regions (Holds Writes)

abbrev Bytes := List UInt8

/-- The partial files by the path in the manifest. -/
abbrev Files := Str → Option Bytes

/-- What a download does, in order. -/
inductive Event
  | tried (vector : List ℕ)
  | pwrote (path : Str) (offset : ℕ) (data : Bytes)
  | marked (index : ℕ)
  deriving DecidableEq

/-! ## Writing and reading -/

/-- `os.pwrite`: past the end the file is filled with zeros. -/
def pwrite (content : Bytes) (offset : ℕ) (data : Bytes) : Bytes :=
  (content ++ List.replicate (offset - content.length) 0).take offset ++ data ++
    content.drop (offset + data.length)

def Files.apply (files : Files) : Event → Files
  | .pwrote path offset data =>
    fun p => if p = path then (files path).map fun content => pwrite content offset data else files p
  | .tried _ => files
  | .marked _ => files

/-- The files after the events. -/
def Files.after (files : Files) (events : List Event) : Files := events.foldl Files.apply files

/-- The inner loop of `_write_piece`.  `taken` is what the disk would take of a write, by its path
and offset. -/
def writeView (taken : Str → ℕ → ℕ) (path : Str) (offset : ℕ) (view : Bytes) :
    List Event × Option Str :=
  if view = [] then ([], none)
  else
    let written := min (taken path offset) view.length
    if _h : written = 0 then ([], some (str "short partial piece write"))
    else
      let (events, failure) := writeView taken path (offset + written) (view.drop written)
      (.pwrote path offset (view.take written) :: events, failure)
termination_by view.length
decreasing_by
  rw [List.length_drop]
  omega

/-- The loop of `_write_piece` over the segments. -/
def writeSegments (taken : Str → ℕ → ℕ) (files : Files) (payload : Bytes) :
    ℕ → List PieceSegment → List Event × Option Str
  | _, [] => ([], none)
  | cursor, s :: rest =>
    if files s.filePath = none then ([], some (str "No such file or directory"))
    else
      match writeView taken s.filePath s.fileOffset ((payload.drop cursor).take s.length) with
      | (events, some e) => (events, some e)
      | (events, none) =>
        let (more, failure) := writeSegments taken files payload (cursor + s.length) rest
        (events ++ more, failure)

/-- `_write_piece`. -/
def writePiece (taken : Str → ℕ → ℕ) (files : Files) (piece : CheckpointPiece) (payload : Bytes) :
    List Event × Option Str :=
  writeSegments taken files payload 0 piece.segments

def readSegments (files : Files) : List PieceSegment → Option Bytes
  | [] => some []
  | s :: rest =>
    match files s.filePath with
    | none => none
    | some content =>
      let chunk := (content.drop s.fileOffset).take s.length
      if chunk.length ≠ s.length then none else (readSegments files rest).map (chunk ++ ·)

/-- `_read_piece`. -/
def readPiece (files : Files) (piece : CheckpointPiece) : Option Bytes := readSegments files piece.segments

/-! ## Single bytes -/

def readByte (files : Files) (a : Address) : Option UInt8 := (files a.1).bind (·[a.2]?)

/-- The partial files as they are prepared for a download. -/
def Prepared (m : Manifest) (files : Files) : Prop :=
  ∀ f ∈ m.files, ∃ content, files f.path = some content ∧ content.length = f.size

theorem length_pwrite {content data : Bytes} {offset : ℕ} (h : offset + data.length ≤ content.length) :
    (pwrite content offset data).length = content.length := by
  rw [pwrite, List.length_append, List.length_append, List.length_take, List.length_append,
    List.length_replicate, List.length_drop]
  omega

theorem take_padded {content : Bytes} {offset : ℕ} (h : offset ≤ content.length) :
    (content ++ List.replicate (offset - content.length) 0).take offset = content.take offset := by
  rw [Nat.sub_eq_zero_of_le h, List.replicate_zero, List.append_nil]

theorem getElem?_pwrite {content data : Bytes} {offset i : ℕ} (h : offset + data.length ≤ content.length) :
    (pwrite content offset data)[i]? =
      if offset ≤ i ∧ i < offset + data.length then data[i - offset]? else content[i]? := by
  rw [pwrite, take_padded (by omega), List.append_assoc]
  have hlen : (content.take offset).length = offset := by
    rw [List.length_take]
    omega
  by_cases hbefore : i < offset
  · rw [List.getElem?_append_left (by omega), List.getElem?_take_of_lt hbefore, if_neg (by omega)]
  · rw [List.getElem?_append_right (by omega), hlen]
    by_cases hin : i < offset + data.length
    · rw [List.getElem?_append_left (by omega), if_pos ⟨by omega, hin⟩]
    · rw [List.getElem?_append_right (by omega), List.getElem?_drop, if_neg (by omega)]
      congr 1
      omega

/-- A range of a list, read by its indices. -/
theorem map_getElem?_range' {l : Bytes} {first n : ℕ} (h : first + n ≤ l.length) :
    (List.range' first n).map (fun i => l[i]?) = ((l.drop first).take n).map some := by
  refine List.ext_getElem (by simp; omega) fun i h₁ h₂ => ?_
  have hi : i < n := by simpa using h₁
  rw [List.getElem_map, List.getElem_range', List.getElem_map, List.getElem_take, List.getElem_drop,
    Nat.one_mul, List.getElem?_eq_getElem]

variable {files files' : Files} {m : Manifest} {path : Str} {events : List Event} {taken : Str → ℕ → ℕ}
  {payload : Bytes}

theorem map_readByte_between {content : Bytes} {first last : ℕ} (h : files path = some content)
    (hlast : first ≤ last) (hlen : last ≤ content.length) :
    (between path first last).map (readByte files) =
      ((content.drop first).take (last - first)).map some := by
  rw [← map_getElem?_range' (by omega : first + (last - first) ≤ content.length), between, List.map_map]
  refine List.map_congr_left fun i _ => ?_
  rw [Function.comp_apply, readByte, h, Option.bind_some]

theorem mem_between {first last : ℕ} {a : Address} :
    a ∈ between path first last ↔ a.1 = path ∧ first ≤ a.2 ∧ a.2 < last := by
  obtain ⟨p, i⟩ := a
  rw [between, List.mem_map]
  constructor
  · rintro ⟨j, hj, he⟩
    obtain ⟨rfl, rfl⟩ := Prod.mk.inj he
    have := List.mem_range'_1.mp hj
    exact ⟨rfl, this.1, by omega⟩
  · rintro ⟨rfl, hfirst, hlast⟩
    dsimp only at hfirst hlast
    exact ⟨i, List.mem_range'_1.mpr ⟨hfirst, by omega⟩, rfl⟩

/-! ## One write -/

theorem Files.after_cons (files : Files) (e : Event) (events : List Event) :
    files.after (e :: events) = (files.apply e).after events := rfl

theorem Files.after_append (files : Files) (events more : List Event) :
    files.after (events ++ more) = (files.after events).after more := List.foldl_append ..

theorem apply_pwrote_self (files : Files) (path : Str) (offset : ℕ) (data : Bytes) :
    (files.apply (.pwrote path offset data)) path =
      (files path).map fun content => pwrite content offset data := if_pos rfl

theorem apply_pwrote_ne {p : Str} (offset : ℕ) (data : Bytes) (h : p ≠ path) :
    (files.apply (.pwrote path offset data)) p = files p := if_neg h

/-- The bytes an event sets. -/
def Event.addresses : Event → List Address
  | .pwrote path offset data => between path offset (offset + data.length)
  | _ => []

/-- A write inside its file. -/
theorem apply_pwrote {content data : Bytes} {offset : ℕ} (h : files path = some content)
    (hlen : offset + data.length ≤ content.length) :
    Writes readByte files (files.apply (.pwrote path offset data))
        (between path offset (offset + data.length)) data ∧
      ∀ p, ((files.apply (.pwrote path offset data)) p).map List.length = (files p).map List.length := by
  have happly : (files.apply (.pwrote path offset data)) path = some (pwrite content offset data) := by
    rw [apply_pwrote_self, h, Option.map_some]
  refine ⟨⟨?_, ?_⟩, fun p => ?_⟩
  · rw [Holds, map_readByte_between happly (by omega) (by rw [length_pwrite hlen]; omega)]
    have hdrop : (pwrite content offset data).drop offset =
        data ++ content.drop (offset + data.length) := by
      rw [pwrite, take_padded (by omega), List.append_assoc]
      exact List.drop_left' (by rw [List.length_take]; omega)
    rw [hdrop, Nat.add_sub_cancel_left, List.take_left' rfl]
  · rintro ⟨p, i⟩ ha
    rw [mem_between] at ha
    dsimp only at ha
    by_cases hp : p = path
    · subst hp
      rw [readByte, readByte]
      dsimp only
      rw [happly, h, Option.bind_some, Option.bind_some, getElem?_pwrite hlen,
        if_neg fun hin => ha ⟨rfl, hin⟩]
    · rw [readByte, readByte, apply_pwrote_ne offset data hp]
  · by_cases hp : p = path
    · rw [hp, happly, h, Option.map_some, Option.map_some, length_pwrite hlen]
    · rw [apply_pwrote_ne offset data hp]

/-- A write to a file that is not there. -/
theorem apply_pwrote_none (offset : ℕ) (data : Bytes) (h : files path = none) (p : Str) :
    (files.apply (.pwrote path offset data)) p = files p := by
  by_cases hp : p = path
  · rw [hp, apply_pwrote_self, h, Option.map_none]
  · exact apply_pwrote_ne offset data hp

/-- An event that is no write changes nothing, and a write only its bytes. -/
theorem readByte_apply {e : Event} {a : Address} (ha : a ∉ e.addresses)
    (hin : ∀ path offset data, e = .pwrote path offset data →
      ∀ content, files path = some content → offset + data.length ≤ content.length) :
    readByte (files.apply e) a = readByte files a := by
  cases e with
  | tried vector => rfl
  | marked index => rfl
  | pwrote path offset data =>
    rcases h : files path with _ | content
    · rw [readByte, readByte, apply_pwrote_none offset data h]
    · exact (apply_pwrote h (hin _ _ _ rfl content h)).1.frame a ha

/-! ## A piece -/

/-- Events that write only to bytes of a list, inside the files. -/
def Inside (files : Files) (addresses : List Address) (events : List Event) : Prop :=
  ∀ e ∈ events, (∀ a ∈ e.addresses, a ∈ addresses) ∧
    ∀ path offset data, e = .pwrote path offset data →
      ∀ content, files path = some content → offset + data.length ≤ content.length

theorem Inside.mono {addresses addresses' : List Address} (h : Inside files addresses events)
    (hsub : ∀ a ∈ addresses, a ∈ addresses') :
    Inside files addresses' events :=
  fun e he => ⟨fun a ha => hsub a ((h e he).1 a ha), (h e he).2⟩

theorem Inside.append {addresses : List Address} {more : List Event} (h : Inside files addresses events)
    (h' : Inside files addresses more) :
    Inside files addresses (events ++ more) := fun e he => by
  rcases List.mem_append.mp he with he | he
  · exact h e he
  · exact h' e he

/-- `Inside` speaks of the sizes of the files only. -/
theorem Inside.congr {addresses : List Address} (h : Inside files addresses events)
    (hlen : ∀ p, (files' p).map List.length = (files p).map List.length) :
    Inside files' addresses events := by
  refine fun e he => ⟨(h e he).1, fun path offset data heq content hcontent => ?_⟩
  have hpath := hlen path
  rw [hcontent, Option.map_some] at hpath
  obtain ⟨content', hcontent', hlen'⟩ := Option.map_eq_some_iff.mp hpath.symm
  rw [← hlen']
  exact (h e he).2 path offset data heq content' hcontent'

theorem length_apply {addresses : List Address} {e : Event} (h : Inside files addresses (e :: events))
    (p : Str) :
    ((files.apply e) p).map List.length = (files p).map List.length := by
  cases e with
  | tried vector => rfl
  | marked index => rfl
  | pwrote path offset data =>
    rcases hpath : files path with _ | content
    · rw [apply_pwrote_none offset data hpath]
    · exact (apply_pwrote hpath ((h _ (List.mem_cons_self ..)).2 _ _ _ rfl content hpath)).2 p

/-- Events that write to bytes of a list leave the others and the sizes. -/
theorem Inside.frame :
    ∀ {events : List Event} {files : Files} {addresses : List Address}, Inside files addresses events →
      (∀ a ∉ addresses, readByte (files.after events) a = readByte files a) ∧
        ∀ p, ((files.after events) p).map List.length = (files p).map List.length
  | [], files, addresses, _ => ⟨fun _ _ => rfl, fun _ => rfl⟩
  | e :: events, files, addresses, h => by
    have hrest : Inside (files.apply e) addresses events :=
      Inside.congr (fun e' he' => h e' (List.mem_cons_of_mem _ he')) (length_apply h)
    obtain ⟨hframe, hlen⟩ := hrest.frame
    have he := h e (List.mem_cons_self ..)
    refine ⟨fun a ha => ?_, fun p => ?_⟩
    · rw [Files.after_cons, hframe a ha, readByte_apply (fun hmem => ha (he.1 a hmem)) he.2]
    · rw [Files.after_cons, hlen p, length_apply h p]

/-- The loop writes the view, whatever the disk takes at once. -/
theorem writeView_spec (htaken : ∀ path offset, 0 < taken path offset) :
    ∀ {n : ℕ} {view : Bytes} {offset : ℕ} {files : Files} {content : Bytes}, view.length = n →
      files path = some content → offset + view.length ≤ content.length →
      (writeView taken path offset view).2 = none ∧
        Inside files (between path offset (offset + view.length)) (writeView taken path offset view).1 ∧
        Writes readByte files (files.after (writeView taken path offset view).1)
          (between path offset (offset + view.length)) view := by
  intro n
  induction n using Nat.strong_induction_on with
  | _ n ih =>
    intro view offset files content hn hcontent hlen
    rw [writeView]
    by_cases hview : view = []
    · subst hview
      rw [if_pos rfl]
      have hempty : between path offset (offset + ([] : Bytes).length) = [] := by
        rw [between, List.length_nil, Nat.add_zero, Nat.sub_self]
        rfl
      rw [hempty]
      exact ⟨rfl, by simp [Inside], Writes.nil readByte files⟩
    · have hpos : 0 < view.length := List.length_pos_iff.mpr hview
      have htake := htaken path offset
      rw [if_neg hview]
      dsimp only
      generalize hw : min (taken path offset) view.length = written
      have hwpos : 0 < written := by omega
      have hwle : written ≤ view.length := by omega
      have hlen₁ : (view.take written).length = written := by
        rw [List.length_take]
        omega
      have hlen₂ : (view.drop written).length = view.length - written := List.length_drop ..
      rw [dif_neg (by omega)]
      -- The first write, and the loop on the rest of the view.
      obtain ⟨hfirst, hsizes⟩ := apply_pwrote hcontent (by omega : offset + (view.take written).length ≤ _)
      have hcontent' : ((files.apply (.pwrote path offset (view.take written))) path).map List.length =
          some content.length := by
        rw [hsizes path, hcontent, Option.map_some]
      obtain ⟨content', hcontent', hlen'⟩ := Option.map_eq_some_iff.mp hcontent'
      obtain ⟨hok, hinside, hrest⟩ := ih (view.length - written) (by omega) hlen₂ hcontent'
        (by omega : offset + written + (view.drop written).length ≤ content'.length)
      have hjoin : between path offset (offset + (view.take written).length) ++
          between path (offset + written) (offset + written + (view.drop written).length) =
          between path offset (offset + view.length) := by
        rw [hlen₁, hlen₂, between_append path (by omega) (by omega)]
        congr 1
        omega
      have hdisjoint : (between path offset (offset + (view.take written).length)).Disjoint
          (between path (offset + written) (offset + written + (view.drop written).length)) := by
        intro a ha hb
        have h₁ := (mem_between.mp ha).2.2
        have h₂ := (mem_between.mp hb).2.1
        omega
      refine ⟨hok, ?_, ?_⟩
      · rintro e he
        rcases List.mem_cons.mp he with rfl | he
        · refine ⟨fun a ha => hjoin ▸ List.mem_append_left _ ha, ?_⟩
          intro p o d heq c hc
          obtain ⟨rfl, rfl, rfl⟩ := Event.pwrote.inj heq
          rw [hcontent] at hc
          obtain rfl := Option.some.inj hc
          omega
        · exact (hinside.mono fun a ha => hjoin ▸ List.mem_append_right _ ha).congr
            (fun p => (hsizes p).symm) e he
      · have happend := hfirst.append hrest hdisjoint
        rw [hjoin, List.take_append_drop] at happend
        exact happend

theorem Prepared.congr (h : Prepared m files)
    (hlen : ∀ p, (files' p).map List.length = (files p).map List.length) : Prepared m files' := by
  intro f hf
  obtain ⟨content, hcontent, hsize⟩ := h f hf
  have hpath := hlen f.path
  rw [hcontent, Option.map_some] at hpath
  obtain ⟨content', hcontent', hlen'⟩ := Option.map_eq_some_iff.mp hpath
  exact ⟨content', hcontent', hlen'.trans hsize⟩

/-- A segment is inside a file that is there. -/
theorem Prepared.content (h : Prepared m files) {s : PieceSegment} (hs : Fits m.files s) :
    ∃ content, files s.filePath = some content ∧ s.fileOffset + s.length ≤ content.length := by
  obtain ⟨f, hf, hpath, hle⟩ := hs.inside
  obtain ⟨content, hcontent, hsize⟩ := h f hf
  exact ⟨content, hpath ▸ hcontent, by omega⟩

/-- The bytes of segments. -/
def spread (segments : List PieceSegment) : List Address := segments.flatMap PieceSegment.addresses

theorem spread_cons (s : PieceSegment) (segments : List PieceSegment) :
    spread (s :: segments) = s.addresses ++ spread segments := List.flatMap_cons ..

theorem writeSegments_spec {m : Manifest} {taken : Str → ℕ → ℕ} {files : Files} {payload : Bytes}
    (htaken : ∀ path offset, 0 < taken path offset) (hthere : Prepared m files) :
    ∀ {segments : List PieceSegment} {cursor : ℕ} {now : Files}, Prepared m now →
      (∀ s ∈ segments, Fits m.files s) → (spread segments).Nodup →
      payload.length = cursor + (spread segments).length →
      (writeSegments taken files payload cursor segments).2 = none ∧
        Inside now (spread segments) (writeSegments taken files payload cursor segments).1 ∧
        Writes readByte now (now.after (writeSegments taken files payload cursor segments).1)
          (spread segments) (payload.drop cursor)
  | [], cursor, now, _, _, _, hlen => by
    rw [spread, List.flatMap_nil, List.length_nil] at hlen
    rw [List.drop_of_length_le (by omega)]
    exact ⟨rfl, by simp [Inside, writeSegments], Writes.nil readByte now⟩
  | s :: rest, cursor, now, hnow, hfits, hnodup, hlen => by
    have hs := hfits s (List.mem_cons_self ..)
    rw [spread_cons] at hnodup hlen
    have hdisjoint : s.addresses.Disjoint (spread rest) := List.disjoint_of_nodup_append hnodup
    have hsegment : s.addresses.length = s.length := by
      rw [PieceSegment.addresses, length_between, Nat.add_sub_cancel_left]
    rw [List.length_append, hsegment] at hlen
    obtain ⟨_, hfile, -⟩ := hthere.content hs
    obtain ⟨content, hcontent, hle⟩ := hnow.content hs
    have hview : ((payload.drop cursor).take s.length).length = s.length := by
      rw [List.length_take, List.length_drop]
      omega
    obtain ⟨hok, hinside, hwrites⟩ := writeView_spec htaken rfl hcontent
      (by rw [hview]; exact hle : s.fileOffset + ((payload.drop cursor).take s.length).length ≤ _)
    rw [hview] at hinside hwrites
    have hsizes := hinside.frame.2
    obtain ⟨hok', hinside', hwrites'⟩ := @writeSegments_spec m taken files payload htaken hthere rest
      (cursor + s.length) _ (hnow.congr hsizes) (fun t ht => hfits t (List.mem_cons_of_mem _ ht))
      (List.Nodup.of_append_right hnodup) (by omega)
    unfold writeSegments
    rw [if_neg (by rw [hfile]; exact Option.some_ne_none _)]
    generalize hview' : writeView taken s.filePath s.fileOffset ((payload.drop cursor).take s.length) =
      written at *
    obtain ⟨events, failure⟩ := written
    obtain rfl : failure = none := hok
    dsimp only at *
    refine ⟨hok', ?_, ?_⟩
    · rw [spread_cons]
      exact (hinside.mono fun a ha => List.mem_append_left _ ha).append
        ((hinside'.mono fun a ha => List.mem_append_right _ ha).congr fun p => (hsizes p).symm)
    · rw [Files.after_append, spread_cons]
      have hsplit : payload.drop cursor =
          (payload.drop cursor).take s.length ++ payload.drop (cursor + s.length) := by
        rw [← List.drop_drop, List.take_append_drop]
      rw [hsplit]
      exact hwrites.append hwrites' hdisjoint

/-- **A piece is written to its own bytes, and nothing else is changed.** -/
theorem writePiece_spec {p : CheckpointPiece} (htaken : ∀ path offset, 0 < taken path offset)
    (hfiles : Prepared m files) (hfits : ∀ s ∈ p.segments, Fits m.files s) (hnodup : p.addresses.Nodup)
    (hlen : payload.length = p.addresses.length) :
    (writePiece taken files p payload).2 = none ∧
      Inside files p.addresses (writePiece taken files p payload).1 ∧
      Writes readByte files (files.after (writePiece taken files p payload).1) p.addresses payload :=
  @writeSegments_spec m taken files payload htaken hfiles p.segments 0 files hfiles hfits hnodup
    (by rw [Nat.zero_add]; exact hlen)

/-! ## Reading a piece -/

/-- What a segment reads as. -/
theorem holds_segment_iff {s : PieceSegment} {chunk : Bytes} (hs : 0 < s.length) :
    Holds readByte files s.addresses chunk ↔ ∃ content, files s.filePath = some content ∧
      (content.drop s.fileOffset).take s.length = chunk ∧ chunk.length = s.length := by
  constructor
  · intro h
    have hlen : chunk.length = s.length := by
      have := congrArg List.length h
      rw [List.length_map, List.length_map, PieceSegment.addresses, length_between] at this
      omega
    have hall : ∀ a ∈ s.addresses, (readByte files a).isSome := by
      intro a ha
      have hmem : readByte files a ∈ chunk.map some := h ▸ List.mem_map_of_mem ha
      obtain ⟨b, -, hb⟩ := List.mem_map.mp hmem
      rw [← hb, Option.isSome_some]
    -- The last byte is there, so the segment is inside the file.
    have hlast := hall (s.filePath, s.fileOffset + (s.length - 1))
      (mem_between.mpr ⟨rfl, by dsimp only; omega, by dsimp only; omega⟩)
    rw [readByte] at hlast
    dsimp only at hlast
    rcases hfile : files s.filePath with _ | content
    · rw [hfile] at hlast
      cases hlast
    · rw [hfile, Option.bind_some, isSome_getElem?] at hlast
      rw [Holds, PieceSegment.addresses, map_readByte_between hfile (by omega) (by omega),
        Nat.add_sub_cancel_left] at h
      exact ⟨content, rfl, List.map_injective_iff.mpr (Option.some_injective _) h, hlen⟩
  · rintro ⟨content, hfile, rfl, hlen⟩
    rw [List.length_take, List.length_drop] at hlen
    rw [Holds, PieceSegment.addresses, map_readByte_between hfile (by omega) (by omega),
      Nat.add_sub_cancel_left]

theorem readSegments_eq_some_iff {files : Files} :
    ∀ {segments : List PieceSegment} {payload : Bytes}, (∀ s ∈ segments, 0 < s.length) →
      (readSegments files segments = some payload ↔ Holds readByte files (spread segments) payload)
  | [], payload, _ => by
    rw [readSegments, spread, List.flatMap_nil, Holds, List.map_nil, Option.some_inj, eq_comm,
      eq_comm (a := []), List.map_eq_nil_iff]
  | s :: rest, payload, hpos => by
    have ih := fun payload => @readSegments_eq_some_iff files rest payload fun t ht =>
      hpos t (List.mem_cons_of_mem _ ht)
    rw [readSegments, spread_cons, Regions.holds_append]
    constructor
    · intro h
      split at h
      · cases h
      · rename_i content hfile
        dsimp only at h
        split_ifs at h with hlen
        obtain ⟨ws, hws, rfl⟩ := Option.map_eq_some_iff.mp h
        exact ⟨_, ws, rfl, (holds_segment_iff (hpos s (List.mem_cons_self ..))).mpr
          ⟨content, hfile, rfl, not_not.mp hlen⟩, (ih ws).mp hws⟩
    · rintro ⟨us, ws, rfl, hus, hws⟩
      obtain ⟨content, hfile, hchunk, hlen⟩ :=
        (holds_segment_iff (hpos s (List.mem_cons_self ..))).mp hus
      rw [hfile]
      dsimp only
      rw [hchunk, if_neg (not_not.mpr hlen), (ih ws).mpr hws, Option.map_some]

/-- **What is read of a piece is what its bytes hold.** -/
theorem readPiece_eq_some_iff {p : CheckpointPiece} (hpos : ∀ s ∈ p.segments, 0 < s.length) :
    readPiece files p = some payload ↔ Holds readByte files p.addresses payload :=
  readSegments_eq_some_iff hpos

/-- A piece whose bytes are the same reads the same. -/
theorem readPiece_congr {p : CheckpointPiece} (hpos : ∀ s ∈ p.segments, 0 < s.length)
    (h : ∀ a ∈ p.addresses, readByte files' a = readByte files a) :
    readPiece files' p = readPiece files p := by
  refine Option.ext fun payload => ?_
  rw [readPiece_eq_some_iff hpos, readPiece_eq_some_iff hpos, Holds, Holds, List.map_congr_left h]

/-! ## All pieces -/

theorem nodup_between (path : Str) (first last : ℕ) : (between path first last).Nodup :=
  List.Nodup.map (fun _ _ h => (Prod.mk.inj h).2) List.nodup_range'

/-- No byte of the files comes twice. -/
theorem nodup_stream (hm : Accepted m) : (stream m.files).Nodup := by
  refine List.nodup_flatMap.mpr ⟨fun f _ => nodup_between _ _ _, ?_⟩
  have hpaths := List.pairwise_map.mp hm.paths
  refine hpaths.imp fun hne a ha hb => ?_
  exact hne ((mem_between.mp ha).1.symm.trans (mem_between.mp hb).1)

theorem Planned.nodup {pieces : List CheckpointPiece} (hm : Accepted m) (h : Planned m pieces)
    {p : CheckpointPiece} (hp : p ∈ pieces) : p.addresses.Nodup := by
  have hnodup := nodup_stream hm
  rw [← h.enumerates] at hnodup
  exact (List.nodup_flatMap.mp hnodup).1 p hp

theorem Planned.disjoint {pieces : List CheckpointPiece} (hm : Accepted m) (h : Planned m pieces) :
    pieces.Pairwise fun p q => p.addresses.Disjoint q.addresses := by
  have hnodup := nodup_stream hm
  rw [← h.enumerates] at hnodup
  exact (List.nodup_flatMap.mp hnodup).2

/-- Two pieces have no common bytes. -/
theorem Planned.disjoint_of_ne {pieces : List CheckpointPiece} (hm : Accepted m) (h : Planned m pieces)
    {p q : CheckpointPiece} (hp : p ∈ pieces) (hq : q ∈ pieces) (hne : p ≠ q) :
    p.addresses.Disjoint q.addresses := by
  have : Std.Symm fun p q : CheckpointPiece => p.addresses.Disjoint q.addresses :=
    ⟨fun _ _ hpq => List.disjoint_symm hpq⟩
  exact (h.disjoint hm).forall hp hq hne

/-- The files after the pieces are written, one after another. -/
def writePieces (taken : Str → ℕ → ℕ) (payload : CheckpointPiece → Bytes) (files : Files)
    (pieces : List CheckpointPiece) : Files :=
  pieces.foldl (fun files p => files.after (writePiece taken files p (payload p)).1) files

/-- The content of a file, nothing where it is not there. -/
def Files.content (files : Files) (f : CheckpointFile) : Bytes := (files f.path).getD []

theorem map_readByte_stream {files : Files} :
    ∀ {fs : List CheckpointFile}, (∀ f ∈ fs, ∃ content, files f.path = some content ∧ content.length = f.size) →
      (stream fs).map (readByte files) = (fs.flatMap files.content).map some
  | [], _ => rfl
  | f :: rest, h => by
    obtain ⟨content, hcontent, hsize⟩ := h f (List.mem_cons_self ..)
    rw [stream_cons, List.map_append, map_readByte_between hcontent (Nat.zero_le _) hsize.ge,
      map_readByte_stream fun g hg => h g (List.mem_cons_of_mem _ hg), List.flatMap_cons,
      List.map_append, List.drop_zero, Nat.sub_zero, List.take_of_length_le hsize.le, Files.content,
      hcontent, Option.getD_some]

/-- **After all pieces are written, in whatever order, the files in a row are the pieces in a row.** -/
theorem writePieces_concat {pieces order : List CheckpointPiece} {payload : CheckpointPiece → Bytes}
    (hm : Accepted m) (h : Planned m pieces) (htaken : ∀ path offset, 0 < taken path offset)
    (hfiles : Prepared m files) (horder : order.Perm pieces)
    (hlen : ∀ p ∈ pieces, (payload p).length = p.length) :
    m.files.flatMap (writePieces taken payload files order).content = pieces.flatMap payload := by
  have hwrite : ∀ p ∈ order, ∀ now, Prepared m now →
      Prepared m (now.after (writePiece taken now p (payload p)).1) ∧
        Writes readByte now (now.after (writePiece taken now p (payload p)).1) p.addresses (payload p) := by
    intro p hp now hnow
    have hpieces := horder.mem_iff.mp hp
    obtain ⟨-, hinside, hwrites⟩ := writePiece_spec htaken hnow (h.pieceOf p hpieces).fits
      (h.nodup hm hpieces) ((hlen p hpieces).trans (h.pieceOf p hpieces).length_addresses.symm)
    exact ⟨hnow.congr hinside.frame.2, hwrites⟩
  have hdisjoint : order.Pairwise fun p q => p.addresses.Disjoint q.addresses :=
    (horder.pairwise_iff fun hpq => List.disjoint_symm hpq).mpr (h.disjoint hm)
  obtain ⟨hend, hholds, -⟩ := Regions.holds_foldl (Prepared m) hwrite hfiles hdisjoint
  -- The bytes in the order of the stream are the payloads in the order of the pieces.
  have hstream : (stream m.files).map (readByte (writePieces taken payload files order)) =
      (pieces.flatMap payload).map some := by
    rw [← h.enumerates, List.map_flatMap, List.map_flatMap]
    exact List.flatMap_congr fun p hp => hholds p (horder.mem_iff.mpr hp)
  have hthere : Prepared m (writePieces taken payload files order) := hend
  rw [map_readByte_stream hthere] at hstream
  exact List.map_injective_iff.mpr (Option.some_injective _) hstream

end AI2Apps.Checkpoints
