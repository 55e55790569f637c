import AI2Apps.Lib.JsonRoundTrip
import AI2Apps.ModelSharing.Protocol
import AI2Apps.ModelSharing.Provider

/-!
# The framing is undone

What the provider sends as one event is cut out again as one event, whatever it is
sent with and however it is chunked, and the two lines of it give back the event
and its data.

* `frames_append`, `feedAll_of_parseAll`: chunking does not matter.
* `Readable`, `frames_body`: an event is one frame.
* `eventLines_body`, `eventData_dumps`: an event is read back.
-/

namespace AI2Apps.ModelSharing

/-! ## Frames -/

/-- Bytes in front of the first frame, or of the remainder where there is none. -/
def prepend (l : List ℕ) : List (List ℕ) × List ℕ → List (List ℕ) × List ℕ
  | ([], r) => ([], l ++ r)
  | (f :: fs, r) => ((l ++ f) :: fs, r)

theorem frames_blank (l : List ℕ) : frames (10 :: 10 :: l) = ([] :: (frames l).1, (frames l).2) := by
  rw [frames, if_pos ⟨rfl, rfl⟩]

theorem frames_cons {b : ℕ} {l : List ℕ} (h : b = 10 → l.head? ≠ some 10) :
    frames (b :: l) = prepend [b] (frames l) := by
  cases l with
  | nil => rfl
  | cons b' rest =>
    rw [frames, if_neg (by rintro ⟨rfl, rfl⟩; exact h rfl rfl)]
    obtain ⟨fs, r⟩ := frames (b' :: rest)
    cases fs <;> rfl

theorem prepend_prepend (a b : List ℕ) (r : List (List ℕ) × List ℕ) :
    prepend a (prepend b r) = prepend (a ++ b) r := by
  obtain ⟨fs, r⟩ := r
  cases fs <;> simp [prepend]

/-- Bytes without a line feed belong to the next frame. -/
theorem frames_append_of_notMem {a : List ℕ} (h : 10 ∉ a) (l : List ℕ) :
    frames (a ++ l) = prepend a (frames l) := by
  induction a with
  | nil =>
    rw [List.nil_append]
    obtain ⟨fs, r⟩ := frames l
    cases fs <;> rfl
  | cons b a ih =>
    rw [List.mem_cons, not_or] at h
    rw [List.cons_append, frames_cons (fun hb => absurd hb.symm h.1), ih h.2, prepend_prepend]
    rfl

/-- Byte strings by how they are cut: at a blank line, or not before the next byte. -/
theorem frames_induction {P : List ℕ → Prop} (nil : P []) (blank : ∀ l, P l → P (10 :: 10 :: l))
    (cons : ∀ b l, (b = 10 → l.head? ≠ some 10) → P l → P (b :: l)) (l : List ℕ) : P l := by
  induction h : l.length using Nat.strong_induction_on generalizing l with
  | _ n ih =>
    cases l with
    | nil => exact nil
    | cons b l =>
      by_cases hblank : b = 10 ∧ l.head? = some 10
      · obtain ⟨rfl, hhead⟩ := hblank
        cases l with
        | nil => exact absurd hhead (by simp)
        | cons b' l =>
          obtain rfl : b' = 10 := Option.some.inj hhead
          exact blank l (ih l.length (by rw [← h, List.length_cons, List.length_cons]; omega) l rfl)
      · exact cons b l (fun hb hhead => hblank ⟨hb, hhead⟩)
          (ih l.length (by rw [← h]; simp) l rfl)

/-- Where nothing is cut off, everything remains. -/
theorem remainder_of_frames_nil {l : List ℕ} (h : (frames l).1 = []) : (frames l).2 = l := by
  induction l using frames_induction with
  | nil => rfl
  | blank l ih =>
    rw [frames_blank] at h
    exact absurd h (List.cons_ne_nil _ _)
  | cons b l hb ih =>
    rw [frames_cons hb] at h ⊢
    rcases hf : frames l with ⟨fs, r⟩
    rw [hf] at ih h
    cases fs with
    | nil => rw [prepend, ← ih rfl, List.singleton_append]
    | cons f fs => exact absurd h (List.cons_ne_nil _ _)

/-- A remainder is cut no further. -/
theorem frames_remainder (l : List ℕ) : frames (frames l).2 = ([], (frames l).2) := by
  induction l using frames_induction with
  | nil => rfl
  | blank l ih =>
    rw [frames_blank]
    exact ih
  | cons b l hb ih =>
    have hcons := frames_cons hb
    rcases hf : frames l with ⟨fs, r⟩
    cases fs with
    | nil =>
      obtain rfl : r = l := by
        have hall := @remainder_of_frames_nil l (by rw [hf])
        rwa [hf] at hall
      rw [hf] at hcons
      rw [hcons]
      exact hcons
    | cons f fs =>
      rw [hf] at hcons ih
      rw [hcons]
      exact ih

/-- **Cutting in two goes**: what remains of the first part is cut with the second. -/
theorem frames_append (a b : List ℕ) :
    frames (a ++ b) =
      ((frames a).1 ++ (frames ((frames a).2 ++ b)).1, (frames ((frames a).2 ++ b)).2) := by
  induction a using frames_induction with
  | nil => rfl
  | blank a ih =>
    rw [List.cons_append, List.cons_append, frames_blank, frames_blank, ih]
    rfl
  | cons x a hx ih =>
    by_cases ha : a = []
    · subst ha
      rfl
    have hx' : x = 10 → (a ++ b).head? ≠ some 10 := fun h => by
      rw [List.head?_append_of_ne_nil _ ha]
      exact hx h
    rw [List.cons_append, frames_cons hx', frames_cons hx, ih]
    rcases hf : frames a with ⟨fs, r⟩
    cases fs with
    | nil =>
      obtain rfl : r = a := by
        have hall := @remainder_of_frames_nil a (by rw [hf])
        rwa [hf] at hall
      rw [prepend, List.singleton_append, List.cons_append, frames_cons hx']
      rfl
    | cons f fs => rfl

/-! ## Chunks -/

section Feed

variable {σ : Type} {parse : σ → List ℕ → Except String (σ × ModelShareEvent)}

theorem parseAll_append {xs ys : List (List ℕ)} {s s' : σ} {events : List ModelShareEvent} :
    parseAll parse s (xs ++ ys) = .ok (s', events) ↔
      ∃ s₁ before after, parseAll parse s xs = .ok (s₁, before) ∧
        parseAll parse s₁ ys = .ok (s', after) ∧ events = before ++ after := by
  induction xs generalizing s events with
  | nil => simp [parseAll]
  | cons raw xs ih =>
    rw [List.cons_append, parseAll, parseAll]
    split_ifs with hraw
    · exact ih
    · cases hp : parse s raw with
      | error e => simp [bind, Except.bind]
      | ok p =>
        obtain ⟨s₂, event⟩ := p
        simp only [bind, Except.bind]
        constructor
        · intro h
          cases hall : parseAll parse s₂ (xs ++ ys) with
          | error e => rw [hall] at h; cases h
          | ok q =>
            obtain ⟨s₃, rest⟩ := q
            rw [hall] at h
            cases h
            obtain ⟨s₁, before, after, hbefore, hafter, rfl⟩ := ih.mp hall
            exact ⟨s₁, event :: before, after, by rw [hbefore]; rfl, hafter, rfl⟩
        · rintro ⟨s₁, before, after, hbefore, hafter, rfl⟩
          cases hxs : parseAll parse s₂ xs with
          | error e => rw [hxs] at hbefore; cases hbefore
          | ok q =>
            obtain ⟨s₃, rest⟩ := q
            rw [hxs] at hbefore
            cases hbefore
            rw [ih.mpr ⟨s₃, rest, after, hxs, hafter, rfl⟩]
            rfl

/-- **Chunking does not matter**: chunks are parsed as the bytes they make up. -/
theorem feedAll_of_parseAll {d : Decoder σ} (hd : frames d.buffer = ([], d.buffer))
    {chunks : List (List ℕ)} {s : σ} {events : List ModelShareEvent}
    (h : parseAll parse d.state (frames (d.buffer ++ chunks.flatten)).1 = .ok (s, events)) :
    feedAll parse d chunks = .ok (⟨(frames (d.buffer ++ chunks.flatten)).2, s⟩, events) := by
  induction chunks generalizing d events with
  | nil =>
    rw [List.flatten_nil, List.append_nil, hd] at h ⊢
    cases h
    rfl
  | cons chunk chunks ih =>
    rw [List.flatten_cons, ← List.append_assoc, frames_append] at h ⊢
    obtain ⟨s₁, before, after, hbefore, hafter, rfl⟩ := parseAll_append.mp h
    have hrest := @ih ⟨(frames (d.buffer ++ chunk)).2, s₁⟩ (frames_remainder _) after hafter
    rw [feedAll, feed, hbefore]
    simp only [bind, Except.bind, pure, Except.pure, hrest]

end Feed

/-! ## One event -/

/-- An event as the provider names it. -/
abbrev OutEvent := String × Json.Object

/-- An event that can be read back: a name of one line, data without floats. -/
def Readable (e : OutEvent) : Prop := 10 ∉ str e.1 ∧ (Json.obj e.2).plain = true

/-- The event the buyer sees. -/
def OutEvent.seen (e : OutEvent) : ModelShareEvent := ⟨str e.1, e.2⟩

/-- The text of an event, without the blank line. -/
def eventText (floats : FloatText) (e : OutEvent) : Str :=
  (str "event: " ++ str e.1) ++ 10 :: (str "data: " ++ JsonText.dumps floats (.obj e.2))

variable {floats : FloatText} {e : OutEvent}

/-- An event that was sent: its bytes are those of its two lines, and a blank line. -/
theorem sse_eq_some {raw : List ℕ} :
    Provider.sse floats e.1 e.2 = some raw ↔
      ∃ body, Utf8.encode (eventText floats e) = some body ∧ raw = body ++ [10, 10] := by
  have htext : str "event: " ++ str e.1 ++ str "\ndata: " ++ JsonText.dumps floats (.obj e.2) ++
      str "\n\n" = eventText floats e ++ [10, 10] := by
    rw [eventText, show str "\ndata: " = 10 :: str "data: " by decide,
      show str "\n\n" = [10, 10] by decide]
    simp only [List.append_assoc, List.cons_append]
  rw [Provider.sse, htext, Utf8.encode_append]
  constructor
  · rintro ⟨body, blank, hbody, hblank, rfl⟩
    cases hblank
    exact ⟨body, hbody, rfl⟩
  · rintro ⟨body, hbody, rfl⟩
    exact ⟨body, [10, 10], hbody, rfl, rfl⟩

theorem isSome_sse_iff {event : String} {data : Json.Object} :
    (Provider.sse floats event data).isSome = true ↔
      (Utf8.encode (str event)).isSome = true ∧
        (Utf8.encode (JsonText.dumps floats (.obj data))).isSome = true := by
  rw [Provider.sse]
  simp only [Utf8.isSome_encode_append]
  have hascii : ∀ s ∈ [str "event: ", str "\ndata: ", str "\n\n"],
      (Utf8.encode s).isSome = true := by decide
  constructor
  · exact fun h => ⟨h.1.1.1.2, h.1.2⟩
  · exact fun h => ⟨⟨⟨⟨hascii _ (by simp), h.1⟩, hascii _ (by simp)⟩, h.2⟩, hascii _ (by simp)⟩

theorem notMem_of_readable {floats : FloatText} {e : OutEvent} (h : Readable e) :
    10 ∉ str "event: " ++ str e.1 ∧
      10 ∉ str "data: " ++ JsonText.dumps floats (.obj e.2) := by
  rw [List.mem_append, List.mem_append, not_or, not_or]
  refine ⟨⟨by decide, h.1⟩, by decide, fun hmem => ?_⟩
  have hle := JsonText.le_of_mem_dumps floats h.2 hmem
  omega

/-- A sent event is one frame of what it is sent with. -/
theorem frames_body {body : List ℕ} (h : Readable e) (hbody : Utf8.encode (eventText floats e) = some body)
    (l : List ℕ) :
    frames (body ++ [10, 10] ++ l) = (body :: (frames l).1, (frames l).2) ∧ body ≠ [] := by
  obtain ⟨hfirst, hsecond⟩ := @notMem_of_readable floats e h
  obtain ⟨first, rest, hfirst', hrest, rfl⟩ := Utf8.encode_append.mp hbody
  obtain ⟨newline, second, hnewline, hsecond', rfl⟩ := Utf8.encode_cons.mp hrest
  cases hnewline
  have hascii : ∀ {s : Str} {bytes : List ℕ}, 10 ∉ s → Utf8.encode s = some bytes → 10 ∉ bytes :=
    fun hs hencode hmem => hs ((Utf8.lt_of_mem_encode hencode hmem).2 (by decide))
  have hhead : ∃ t, second = 100 :: t := by
    obtain ⟨head, tail, hhead, -, rfl⟩ := Utf8.encode_cons.mp
      (show Utf8.encode (100 :: (str "ata: " ++ JsonText.dumps floats (.obj e.2))) = some second from
        hsecond')
    cases hhead
    exact ⟨tail, rfl⟩
  obtain ⟨t, rfl⟩ := hhead
  refine ⟨?_, by simp⟩
  have hsecondFrame : frames ((100 :: t) ++ 10 :: 10 :: l) =
      ((100 :: t) :: (frames l).1, (frames l).2) := by
    rw [frames_append_of_notMem (hascii hsecond hsecond'), frames_blank, prepend, List.append_nil]
  have hassoc : first ++ ([10] ++ (100 :: t)) ++ [10, 10] ++ l =
      first ++ 10 :: ((100 :: t) ++ 10 :: 10 :: l) := by simp
  rw [hassoc, frames_append_of_notMem (hascii hfirst hfirst'),
    frames_cons (fun _ h => absurd h (by simp)), hsecondFrame, prepend_prepend, prepend,
    List.append_assoc]

theorem splitOn_eventText (h : Readable e) :
    List.splitOn 10 (eventText floats e) =
      [str "event: " ++ str e.1, str "data: " ++ JsonText.dumps floats (.obj e.2)] := by
  obtain ⟨hfirst, hsecond⟩ := @notMem_of_readable floats e h
  have hjoin : eventText floats e = [10].intercalate
      [str "event: " ++ str e.1, str "data: " ++ JsonText.dumps floats (.obj e.2)] := by
    simp [eventText, List.intercalate]
  rw [hjoin, List.splitOn_intercalate]
  · intro line hline
    rcases List.mem_cons.mp hline with rfl | hline
    · exact hfirst
    · rw [List.mem_singleton.mp hline]
      exact hsecond
  · exact List.cons_ne_nil _ _

theorem afterHead_append (head : String) (text : Str) :
    afterHead head (str head ++ text) = some text := by
  rw [afterHead, if_pos (List.isPrefixOf_iff_prefix.mpr (List.prefix_append _ _)), List.drop_left]

/-- The two lines of an event are read back. -/
theorem eventLines_body {body : List ℕ} (h : Readable e)
    (hbody : Utf8.encode (eventText floats e) = some body) :
    eventLines body = .ok (str e.1, JsonText.dumps floats (.obj e.2)) := by
  rw [eventLines, Utf8.decode_encode hbody]
  simp only [splitOn_eventText h, afterHead_append]

/-- The data of an event is read back. -/
theorem eventData_dumps {contractId : Str} {sequence : ℕ} (h : Readable e)
    (hcontract : Json.lookup (str "contractId") e.2 = some (.str contractId))
    (hsequence : Json.lookup (str "sequence") e.2 = some (.int sequence)) :
    eventData floats contractId sequence (JsonText.dumps floats (.obj e.2)) = .ok e.2 := by
  have hseq : Json.memberEq e.2 (str "sequence") (.int sequence) = true := by
    rw [Json.memberEq, hsequence]
    simp [Json.pyEq]
  rw [eventData, JsonText.loads_dumps floats h.2]
  simp only [Json.obj?]
  rw [if_pos (by rw [Json.memberEq_str_iff.mpr hcontract, hseq]; rfl)]

end AI2Apps.ModelSharing
