import AI2Apps.AppDevelopment.Drafts
import AI2Apps.Lib.JsonRoundTrip

/-!
# Edits and windows of a draft

* `Replaced`, `edit_law`: an edit changes what it matches only, as long as the file has no
  carriage return.
* `follow`: reading a file window by window.
* `follow_spec`: the windows have every line once, in order, and come to an end.
* `draft_law`: both, and what an edit that raises has changed.
-/

namespace AI2Apps.AppDevelopment

open TextReplace (count replace translate)

/-! ## Edits -/

/-- The bytes are those of a text with the old part replaced, once or everywhere. -/
def Replaced (text old new : Str) (replaceAll : Bool) (data : Bytes) : Prop :=
  ∃ text', Utf8.encode text' = some data ∧
    if replaceAll then text' = replace text old new
    else ∃ before after, text = before ++ old ++ after ∧ text' = before ++ new ++ after

theorem encode_inj {s t : Str} {data : Bytes} (hs : Utf8.encode s = some data)
    (ht : Utf8.encode t = some data) : s = t :=
  Option.some.inj ((Utf8.decode_encode hs).symm.trans (Utf8.decode_encode ht))

section

variable {text old new : Str} {replaceAll : Bool} {data : Bytes}

/-- A text without carriage returns is edited as it is. -/
theorem replaced_of_notMem (hold : old ≠ []) (honce : replaceAll = false → count (translate text) old = 1)
    (hdata : Utf8.encode (replace (translate text) old new) = some data) (hcr : 13 ∉ text) :
    Replaced text old new replaceAll data := by
  rw [TextReplace.translate_eq_self hcr] at honce hdata
  refine ⟨_, hdata, ?_⟩
  cases replaceAll with
  | true => exact rfl
  | false => exact TextReplace.replace_of_count_eq_one hold text (honce rfl)

/-- Where a carriage return was lost, the text is not what it was around the old part. -/
theorem notMem_of_replaced (hold : old ≠ []) (hfound : count (translate text) old ≠ 0)
    (honce : replaceAll = false → count (translate text) old = 1)
    (hdata : Utf8.encode (replace (translate text) old new) = some data)
    (hnew : replaceAll = false ∨ 13 ∉ new) (h : Replaced text old new replaceAll data) : 13 ∉ text := by
  have hread : 13 ∉ translate text := TextReplace.notMem_translate text
  have hcr : 13 ∉ old := fun hmem => hread (TextReplace.mem_of_count_ne_zero hold hmem _ hfound)
  obtain ⟨text', htext', hreplaced⟩ := h
  obtain rfl := encode_inj htext' hdata
  cases replaceAll with
  | true =>
    intro hmem
    have hin : 13 ∈ replace text old new := TextReplace.mem_replace_of_mem hold hcr text hmem
    rw [if_pos rfl] at hreplaced
    rw [← hreplaced] at hin
    rcases TextReplace.mem_of_mem_replace hold _ hin with hmem | hmem
    · exact hread hmem
    · exact hnew.elim (fun hf => by cases hf) (fun hn => hn hmem)
  | false =>
    obtain ⟨before, after, htext, htext'⟩ := hreplaced
    obtain ⟨front, back, hsplit, hresult⟩ : ∃ front back,
        TextReplace.translate text = front ++ old ++ back ∧
          TextReplace.replace (TextReplace.translate text) old new = front ++ new ++ back :=
      TextReplace.replace_of_count_eq_one hold _ (honce rfl)
    rw [hresult] at htext'
    -- Both results have the carriage returns of the new part, and the read text has none of its own.
    have hcount := congrArg (List.count 13) htext'
    simp only [List.count_append] at hcount
    rw [hsplit, List.mem_append, List.mem_append, not_or, not_or] at hread
    rw [List.count_eq_zero.mpr hread.1.1, List.count_eq_zero.mpr hread.2] at hcount
    have hbefore : 13 ∉ before := List.count_eq_zero.mp (by omega)
    have hafter : 13 ∉ after := List.count_eq_zero.mp (by omega)
    rw [htext, List.mem_append, List.mem_append, not_or, not_or]
    exact ⟨⟨hbefore, hcr⟩, hafter⟩

end

/-- What an edit that succeeds changes. -/
structure EditLaw (draft draft' : Draft) (relative old new : Str) (replaceAll : Bool) : Prop where
  edited : ∃ path content text data, safePath relative = .ok path ∧ draft.file path = some content ∧
    Utf8.decode content = some text ∧ draft'.file path = some data ∧
    (∀ other, other ≠ path → draft'.file other = draft.file other) ∧
    (13 ∉ text → Replaced text old new replaceAll data) ∧
    ((replaceAll = false ∨ 13 ∉ new) → (Replaced text old new replaceAll data ↔ 13 ∉ text))

variable {relative text : Str} {draft : Draft} {path : Path} {content : Bytes}

/-- **An edit changes what it matches only, if and only if the file has no carriage return.** -/
theorem edit_law {digest : Bytes → Str} {disk : Disk} {draft' : Draft} {old new result : Str}
    {expected : Option Str} {replaceAll : Bool}
    (h : edit digest disk draft relative old new expected replaceAll = (draft', .ok result)) :
    EditLaw draft draft' relative old new replaceAll := by
  obtain ⟨path, content, text, data, hpath, hcontent, htext, hold, hfound, honce, hdata, rfl⟩ := edit_ok h
  have hfile := @file_atomicWrite draft path data content hcontent
  refine ⟨path, content, text, data, hpath, hcontent, htext, ?_, fun other hne => ?_,
    replaced_of_notMem hold honce hdata, fun hnew =>
      ⟨notMem_of_replaced hold hfound honce hdata hnew, replaced_of_notMem hold honce hdata⟩⟩
  · exact (hfile path).trans (if_pos rfl)
  · exact (hfile other).trans (if_neg hne)

/-! ## The lines of a window -/

/-- The lines with their numbers. -/
def renderAll : ℕ → List Str → List Str
  | _, [] => []
  | number, line :: rest => rendered number line :: renderAll (number + 1) rest

theorem length_renderAll : ∀ (number : ℕ) (lines : List Str), (renderAll number lines).length = lines.length
  | _, [] => rfl
  | number, line :: rest => by rw [renderAll, List.length_cons, length_renderAll, List.length_cons]

theorem renderAll_append : ∀ (number : ℕ) (lines more : List Str),
    renderAll number (lines ++ more) = renderAll number lines ++ renderAll (number + lines.length) more
  | _, [], _ => rfl
  | number, line :: rest, more => by
    rw [List.cons_append, renderAll, renderAll_append, renderAll, List.cons_append, List.length_cons,
      Nat.add_right_comm, Nat.add_assoc]

theorem renderAll_take (number k : ℕ) (lines : List Str) :
    renderAll number (lines.take k) = (renderAll number lines).take k := by
  by_cases hk : k ≤ lines.length
  · conv_rhs => rw [← List.take_append_drop k lines, renderAll_append]
    rw [List.take_left' (by rw [length_renderAll, List.length_take]; omega)]
  · rw [List.take_of_length_le (by omega), List.take_of_length_le (by rw [length_renderAll]; omega)]

/-- A code point that is no surrogate. -/
def Scalar (c : ℕ) : Prop := c < 0xD800 ∨ 0xE000 ≤ c ∧ c < 0x110000

/-- A line can be encoded, with its number, in no more than 16000 bytes. -/
theorem encode_rendered {number : ℕ} {line : Str} (hnumber : number < 10 ^ 7) (hline : ∀ c ∈ line, Scalar c) :
    ∃ bytes, Utf8.encode (rendered number line) = some bytes ∧ bytes.length ≤ 16000 := by
  have hscalars : ∀ c ∈ rendered number line, c < 0xD800 ∨ 0xE000 ≤ c ∧ c < 0x110000 := by
    intro c hc
    rw [rendered, List.mem_append, List.mem_append] at hc
    rcases hc with (hc | hc) | hc
    · obtain ⟨d, ds, heq, hdigits, -⟩ := JsonText.natText_spec number
      rw [heq] at hc
      have := JsonText.isDigit_iff.mp (hdigits c hc)
      omega
    · have hblank : ∀ c ∈ str ": ", c < 0xD800 := by decide
      exact Or.inl (hblank c hc)
    · exact hline c (List.mem_of_mem_take hc)
  obtain ⟨bytes, hbytes, hlen⟩ := Utf8.encode_of_scalars hscalars
  refine ⟨bytes, hbytes, ?_⟩
  have hdigits := @JsonText.length_digitsBefore_le (number + 1) number 6 hnumber []
  have hnatText : (JsonText.natText number).length ≤ 7 := hdigits
  have hblank : (str ": ").length = 2 := by decide
  rw [rendered, List.length_append, List.length_append, hblank, List.length_take] at hlen
  omega

/-- The loop takes lines from the front, at least one if there is one. -/
theorem select_spec : ∀ {lines : List Str} {used number : ℕ}, (∀ line ∈ lines, ∀ c ∈ line, Scalar c) →
    number + lines.length ≤ 10 ^ 7 →
    ∃ k, k ≤ lines.length ∧ select used number lines = .ok ((renderAll number lines).take k) ∧
      (used = 0 → lines ≠ [] → 0 < k)
  | [], used, number, _, _ => ⟨0, le_rfl, rfl, fun _ h => absurd rfl h⟩
  | line :: rest, used, number, hlines, hnumber => by
    rw [List.length_cons] at hnumber
    obtain ⟨bytes, hbytes, hlen⟩ := encode_rendered (by omega : number < 10 ^ 7)
      (hlines line (List.mem_cons_self ..))
    rw [select, hbytes]
    dsimp only
    split_ifs with hfull
    · exact ⟨0, Nat.zero_le _, rfl, fun hused => by omega⟩
    · obtain ⟨k, hk, hselect, -⟩ := @select_spec rest (used + bytes.length) (number + 1)
        (fun l hl => hlines l (List.mem_cons_of_mem _ hl)) (by omega)
      rw [hselect]
      exact ⟨k + 1, Nat.succ_le_succ hk, rfl, fun _ _ => Nat.succ_pos k⟩

/-! ## The lines of a text -/

theorem length_splitFrom : ∀ {text line : Str},
    (splitFrom line text).length ≤ text.length + if line = [] then 0 else 1 := by
  intro text line
  induction line, text using splitFrom.induct with
  | case1 => simp [splitFrom]
  | case2 line hline => simp [splitFrom, hline]
  | case3 line rest ih =>
    rw [if_pos rfl] at ih
    rw [splitFrom, List.length_cons, List.length_cons, List.length_cons]
    split_ifs <;> omega
  | case4 line c rest hcrlf hbreak ih =>
    rw [if_pos rfl] at ih
    rw [splitFrom, if_pos hbreak, List.length_cons, List.length_cons]
    · split_ifs <;> omega
    · exact hcrlf
  | case5 line c rest hcrlf hbreak ih =>
    rw [if_neg (by simp)] at ih
    rw [splitFrom, if_neg hbreak, List.length_cons]
    · split_ifs <;> omega
    · exact hcrlf

theorem mem_splitFrom : ∀ {text line : Str}, ∀ l ∈ splitFrom line text, ∀ c ∈ l, c ∈ line ∨ c ∈ text := by
  intro text line
  induction line, text using splitFrom.induct with
  | case1 => simp [splitFrom]
  | case2 line hline =>
    intro l hl c hc
    rw [splitFrom, if_neg hline] at hl
    exact Or.inl (List.mem_singleton.mp hl ▸ hc)
  | case3 line rest ih =>
    intro l hl c hc
    rw [splitFrom] at hl
    rcases List.mem_cons.mp hl with rfl | hl
    · exact Or.inl hc
    · refine Or.inr (List.mem_cons_of_mem _ (List.mem_cons_of_mem _ ?_))
      exact (ih l hl c hc).resolve_left List.not_mem_nil
  | case4 line d rest hcrlf hbreak ih =>
    intro l hl c hc
    rw [splitFrom, if_pos hbreak] at hl
    · rcases List.mem_cons.mp hl with rfl | hl
      · exact Or.inl hc
      · exact Or.inr (List.mem_cons_of_mem _ ((ih l hl c hc).resolve_left List.not_mem_nil))
    · exact hcrlf
  | case5 line d rest hcrlf hbreak ih =>
    intro l hl c hc
    rw [splitFrom, if_neg hbreak] at hl
    · rcases ih l hl c hc with h | h
      · rcases List.mem_append.mp h with h | h
        · exact Or.inl h
        · exact Or.inr (List.mem_cons.mpr (Or.inl (List.mem_singleton.mp h)))
      · exact Or.inr (List.mem_cons_of_mem _ h)
    · exact hcrlf

theorem length_splitlines (text : Str) : (splitlines text).length ≤ text.length :=
  length_splitFrom.trans (by rw [if_pos rfl, Nat.add_zero])

theorem mem_splitlines {l : Str} (hl : l ∈ splitlines text) {c : ℕ} (hc : c ∈ l) : c ∈ text :=
  (mem_splitFrom l hl c hc).resolve_left List.not_mem_nil

/-! ## Reading a file -/

/-- A text file of the draft. -/
structure Readable (draft : Draft) (relative : Str) (path : Path) (content : Bytes) (text : Str) : Prop where
  safe : safePath relative = .ok path
  file : draft.file path = some content
  size : content.length ≤ maxTextBytes
  decoded : Utf8.decode content = some text
  binding : draft.bindingKept = true

theorem Readable.observe {digest : Str} (h : Readable draft relative path content text) :
    Readable (draft.observe relative digest) relative path content text :=
  ⟨h.safe, h.file, h.size, h.decoded, h.binding⟩

theorem Readable.scalars (h : Readable draft relative path content text) :
    (∀ l ∈ splitlines text, ∀ c ∈ l, Scalar c) ∧ (splitlines text).length < 10 ^ 7 - 1 := by
  obtain ⟨hscalars, hlen⟩ := Utf8.scalars_of_decode content text h.decoded
  refine ⟨fun l hl c hc => hscalars c (mem_splitlines hl hc), ?_⟩
  have hsize := h.size
  have hlines := length_splitlines text
  unfold maxTextBytes at hsize
  omega

/-- **A window is the next lines of the file, at least one if there is one.** -/
theorem read_spec {digest : Bytes → Str} {draft : Draft} {relative : Str} {path : Path} {content : Bytes}
    {text : Str} {offset limit : ℕ} (h : Readable draft relative path content text) (hoffset : 1 ≤ offset)
    (hlast : offset ≤ (splitlines text).length + 1) (hlimit : 1 ≤ limit ∧ limit ≤ 500) :
    ∃ k window, read digest draft relative offset limit =
        (draft.observe relative (digest content), .ok window) ∧
      k ≤ (splitlines text).length - (offset - 1) ∧
      window.content = [10].intercalate ((renderAll offset ((splitlines text).drop (offset - 1))).take k) ∧
      window.nextOffset = (if offset + k ≤ (splitlines text).length then some (offset + k) else none) ∧
      (offset ≤ (splitlines text).length → 0 < k) := by
  obtain ⟨hscalars, hlen⟩ := h.scalars
  unfold read
  rw [h.safe]
  dsimp only
  rw [h.file]
  dsimp only
  rw [if_neg (not_lt.mpr h.size), h.decoded]
  dsimp only
  rw [if_neg (by omega)]
  generalize splitlines text = lines at *
  obtain ⟨k, hk, hselect, hpos⟩ := @select_spec ((lines.drop (offset - 1)).take limit) 0 offset
    (fun l hl => hscalars l (List.mem_of_mem_drop (List.mem_of_mem_take hl)))
    (by rw [List.length_take, List.length_drop]; omega)
  rw [List.length_take, List.length_drop] at hk
  have htake : (renderAll offset ((lines.drop (offset - 1)).take limit)).take k =
      (renderAll offset (lines.drop (offset - 1))).take k := by
    rw [renderAll_take, List.take_take, Nat.min_eq_left (by omega)]
  have hcount : ((renderAll offset (lines.drop (offset - 1))).take k).length = k := by
    rw [List.length_take, length_renderAll, List.length_drop]
    omega
  rw [hselect]
  dsimp only
  rw [if_neg (not_not.mpr h.binding), htake]
  refine ⟨k, _, rfl, by omega, rfl, ?_, fun hle => hpos rfl fun hnil => ?_⟩
  · dsimp only
    rw [hcount]
  · have := congrArg List.length hnil
    rw [List.length_take, List.length_drop, List.length_nil] at this
    omega

/-- Reading a file from an offset, each time where the last window says, until none is said. -/
def follow (digest : Bytes → Str) (relative : Str) (limits : ℕ → ℕ) : ℕ → ℕ → ℕ → Draft → Option (List Window)
  | 0, _, _, _ => none
  | fuel + 1, round, offset, draft =>
    match read digest draft relative offset (limits round) with
    | (_, .error _) => none
    | (draft, .ok window) =>
      match window.nextOffset with
      | none => some [window]
      | some next => (follow digest relative limits fuel (round + 1) next draft).map (window :: ·)

/-- Windows that have the lines, in order. -/
def Shows (windows : List Window) (lines : List Str) : Prop :=
  ∃ groups : List (List Str), windows.map Window.content = groups.map ([10].intercalate ·) ∧
    groups.flatten = lines

theorem follow_spec {digest : Bytes → Str} {relative : Str} {path : Path} {content : Bytes} {text : Str}
    {limits : ℕ → ℕ} (hlimits : ∀ round, 1 ≤ limits round ∧ limits round ≤ 500) :
    ∀ {fuel round offset : ℕ} {draft : Draft}, Readable draft relative path content text → 1 ≤ offset →
      offset ≤ (splitlines text).length + 1 → (splitlines text).length + 1 < fuel + offset →
      ∃ windows, follow digest relative limits fuel round offset draft = some windows ∧
        Shows windows (renderAll offset ((splitlines text).drop (offset - 1)))
  | 0, _, _, _, _, _, _, hfuel => by omega
  | fuel + 1, round, offset, draft, h, hoffset, hlast, hfuel => by
    obtain ⟨k, window, hread, hk, hcontent, hnext, hpos⟩ :=
      @read_spec digest draft relative path content text offset _ h hoffset hlast (hlimits round)
    rw [follow, hread]
    dsimp only
    rw [hnext]
    by_cases hmore : offset + k ≤ (splitlines text).length
    · rw [if_pos hmore]
      dsimp only
      obtain ⟨windows, hwindows, groups, hgroups, hflatten⟩ := @follow_spec digest relative path content text
        limits hlimits fuel (round + 1) (offset + k) (draft.observe relative (digest content)) h.observe (by omega)
        (by omega) (by have := hpos (by omega); omega)
      rw [hwindows]
      refine ⟨_, rfl, _ :: groups, by rw [List.map_cons, List.map_cons, hcontent, hgroups], ?_⟩
      -- The lines of this window, and those that follow.
      rw [List.flatten_cons, hflatten]
      conv_rhs => rw [← List.take_append_drop k ((splitlines text).drop (offset - 1)), renderAll_append]
      rw [renderAll_take, List.length_take, List.length_drop, List.drop_drop,
        Nat.min_eq_left (by omega), show offset + k - 1 = offset - 1 + k by omega]
    · rw [if_neg hmore]
      refine ⟨_, rfl, [_], by rw [List.map_singleton, List.map_singleton, hcontent], ?_⟩
      rw [List.flatten_singleton, List.take_of_length_le]
      rw [length_renderAll, List.length_drop]
      omega

/-! ## The law of a draft -/

/-- What edits and reads of a draft do. -/
structure DraftLaw (digest : Bytes → Str) (draft : Draft) : Prop where
  edits : ∀ disk relative old new expected replaceAll draft' result,
    edit digest disk draft relative old new expected replaceAll = (draft', .ok result) →
    EditLaw draft draft' relative old new replaceAll
  /-- Nothing has changed, or the file is written and the state is not saved. -/
  raises : ∀ disk relative old new expected replaceAll draft' e,
    edit digest disk draft relative old new expected replaceAll = (draft', .error e) →
    draft' = draft ∨ Unsaved disk draft draft' relative
  /-- From the first line on, the windows have every line once and come to an end. -/
  reads : ∀ relative path content text (limits : ℕ → ℕ), Readable draft relative path content text →
    (∀ round, 1 ≤ limits round ∧ limits round ≤ 500) →
    ∃ fuel windows, follow digest relative limits fuel 0 1 draft = some windows ∧
      Shows windows (renderAll 1 (splitlines text))

/-- **The law of a draft.** -/
theorem draft_law (digest : Bytes → Str) (draft : Draft) : DraftLaw digest draft where
  edits _ _ _ _ _ _ _ _ h := edit_law h
  raises _ _ _ _ _ _ _ _ h := edit_error h
  reads relative path content text limits h hlimits := by
    obtain ⟨windows, hwindows, hshows⟩ := @follow_spec digest relative path content text limits hlimits
      ((splitlines text).length + 1) 0 1 draft h le_rfl (by omega) (by omega)
    rw [Nat.sub_self, List.drop_zero] at hshows
    exact ⟨_, windows, hwindows, hshows⟩

/-- The digests of a file with a line that ends in a carriage return and a line feed, and of its
edit. -/
def crlfDigest (data : Bytes) : Str :=
  if data = [97, 13, 10, 98] then str "18745f36a05e29072709042d6062ce54f1b08ff36c27ba80c39f81fb010c8ce2"
  else if data = [97, 10, 99] then str "9e58d7137c654f526a7a7c9cbab79c2e859b4dfbb579d1d6dd3aa4113a8a909b"
  else []

/-- A draft of that file, which was read. -/
def crlfDraft : Draft :=
  ⟨[([str "a"], [97, 13, 10, 98])], fun _ => some (crlfDigest [97, 13, 10, 98]), false, true⟩

/-- Its edited file has lost the carriage return. -/
theorem edit_crlfDraft :
    (edit crlfDigest .works crlfDraft (str "a") [98] [99] (some (crlfDigest [97, 13, 10, 98])) false).2 =
        .ok (crlfDigest [97, 10, 99]) ∧
      (edit crlfDigest .works crlfDraft (str "a") [98] [99] (some (crlfDigest [97, 13, 10, 98])) false).1.file
        [str "a"] = some [97, 10, 99] := by
  decide

/-- Not every edit changes what it matches only. -/
theorem edit_not_only_matches : ¬ ∀ (digest : Bytes → Str) (draft draft' : Draft) (relative old new result : Str)
    (expected : Option Str) (replaceAll : Bool) (path : Path) (content data : Bytes) (text : Str),
    edit digest .works draft relative old new expected replaceAll = (draft', .ok result) →
    safePath relative = .ok path → draft.file path = some content → Utf8.decode content = some text →
    draft'.file path = some data → Replaced text old new replaceAll data := by
  intro h
  obtain ⟨text', htext', before, after, htext, rfl⟩ := h crlfDigest crlfDraft _ (str "a") [98] [99] _
    _ _ [str "a"] [97, 13, 10, 98] [97, 10, 99] [97, 13, 10, 98] (Prod.ext rfl edit_crlfDraft.1) (by decide)
    (by decide) (by decide) edit_crlfDraft.2
  -- The result would have the carriage return.
  have hresult : before ++ [99] ++ after = [97, 10, 99] :=
    encode_inj htext' (by decide : Utf8.encode [97, 10, 99] = some [97, 10, 99])
  have hcount := congrArg (List.count 13) htext
  have hcount' := congrArg (List.count 13) hresult
  simp only [List.count_append] at hcount hcount'
  have hold : List.count 13 [98] = 0 := by decide
  have hnew : List.count 13 [99] = 0 := by decide
  have htotal : List.count 13 [97, 13, 10, 98] = 1 := by decide
  have htotal' : List.count 13 [97, 10, 99] = 0 := by decide
  omega

end AI2Apps.AppDevelopment
