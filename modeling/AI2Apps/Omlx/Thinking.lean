import AI2Apps.Lib.TextOrder
import Mathlib.Data.List.Infix

/-!
# The parser of streamed thinking

`ThinkingParser` separates what a model thinks from what it says.  Four tags move it from
one to the other; what may become a tag waits in a buffer for the next chunk.

* `scan`: one pass over the buffer and a chunk.
* `ThinkingParser.feed`, `ThinkingParser.finish`, `read`: a chunk, the end, a whole stream.
* `labelled`, `outsideTags`: what a text says, character by character, and what of it lies
  outside of tags.
* `scan_append`: a part is scanned, then what it left with the rest.
* `thinking_chunking`: where a stream is cut does not matter.
-/

namespace AI2Apps.Omlx

/-! ## Tags -/

inductive Tag where
  | openTag
  | hy3OpenTag
  | closeTag
  | hy3CloseTag
  deriving DecidableEq

def Tag.text : Tag → Str
  | .openTag => str "<think>"
  | .hy3OpenTag => str "<think:opensource>"
  | .closeTag => str "</think>"
  | .hy3CloseTag => str "</think:opensource>"

/-- A tag opens the thinking, or closes it. -/
def Tag.opens : Tag → Bool
  | .openTag | .hy3OpenTag => true
  | .closeTag | .hy3CloseTag => false

/-- The tags in the order they are tried. -/
def tags : List Tag := [.openTag, .hy3OpenTag, .closeTag, .hy3CloseTag]

/-- The first tag that a text starts with. -/
def tagAt (text : Str) : Option Tag := tags.find? fun t => t.text.isPrefixOf text

/-- `_could_be_tag`. -/
def couldBeTag (text : Str) : Bool :=
  if text.length ≥ Tag.hy3CloseTag.text.length then false
  else tags.any fun t => text.length < t.text.length && t.text.take text.length == text

variable {text : Str}

theorem Tag.text_pos (t : Tag) : 0 < t.text.length := by cases t <;> decide

/-! ## The parser -/

/-- What a pass leaves: what was thought, what was said, and where the parser is. -/
structure Scanned where
  thinking : Str
  content : Str
  inThinking : Bool
  closeSeen : Bool
  buffer : Str

/-- A character that is no part of a tag. -/
def Scanned.emit (inThinking : Bool) (c : ℕ) (r : Scanned) : Scanned :=
  if inThinking then { r with thinking := c :: r.thinking } else { r with content := c :: r.content }

/-- The loop of `feed`. -/
def scan (inThinking closeSeen : Bool) : Str → Scanned
  | [] => ⟨[], [], inThinking, closeSeen, []⟩
  | c :: rest =>
    if c = 60 then
      match tagAt (c :: rest) with
      | some t => scan t.opens (closeSeen || !t.opens) ((c :: rest).drop t.text.length)
      | none =>
        if couldBeTag (c :: rest) then ⟨[], [], inThinking, closeSeen, c :: rest⟩
        else (scan inThinking closeSeen rest).emit inThinking c
    else (scan inThinking closeSeen rest).emit inThinking c
termination_by text => text.length
decreasing_by
  · have := t.text_pos
    simp only [List.length_drop, List.length_cons]
    omega
  · simp
  · simp

structure ThinkingParser where
  inThinking : Bool
  buffer : Str
  closeSeen : Bool
  thinkingAccumulated : List Str
  contentEmitted : Bool

/-- `__init__`. -/
def ThinkingParser.init (startInThinking : Bool) : ThinkingParser := ⟨startInThinking, [], false, [], false⟩

def ThinkingParser.feed (p : ThinkingParser) (text : Str) : ThinkingParser × Str × Str :=
  if text = [] then (p, [], [])
  else
    let r := scan p.inThinking p.closeSeen (p.buffer ++ text)
    ({ inThinking := r.inThinking
       buffer := r.buffer
       closeSeen := r.closeSeen
       thinkingAccumulated := if r.thinking = [] then p.thinkingAccumulated
         else p.thinkingAccumulated ++ [r.thinking]
       contentEmitted := p.contentEmitted || r.content ≠ [] }, r.thinking, r.content)

/-- The thinking was never closed and nothing was said. -/
def ThinkingParser.recovers (p : ThinkingParser) : Bool :=
  p.inThinking && !p.closeSeen && !p.contentEmitted && !p.thinkingAccumulated.isEmpty

def ThinkingParser.finish (p : ThinkingParser) : ThinkingParser × Str × Str :=
  let q := { p with buffer := [] }
  if p.recovers then
    ({ q with contentEmitted := true }, [], p.thinkingAccumulated.flatten ++ p.buffer)
  else if p.buffer = [] then (q, [], [])
  else if p.inThinking then
    ({ q with thinkingAccumulated := p.thinkingAccumulated ++ [p.buffer] }, p.buffer, [])
  else ({ q with contentEmitted := true }, [], p.buffer)

/-- The chunks of a stream one after the other, with all they brought. -/
def ThinkingParser.feedAll (p : ThinkingParser) : List Str → ThinkingParser × Str × Str
  | [] => (p, [], [])
  | chunk :: chunks =>
    let r := p.feed chunk
    let r' := r.1.feedAll chunks
    (r'.1, r.2.1 ++ r'.2.1, r.2.2 ++ r'.2.2)

/-- What was thought and said in a whole stream. -/
def read (startInThinking : Bool) (chunks : List Str) : Str × Str :=
  let r := (ThinkingParser.init startInThinking).feedAll chunks
  let f := r.1.finish
  (r.2.1 ++ f.2.1, r.2.2 ++ f.2.2)

/-! ## What a text says -/

/-- A position that lies within a complete tag. -/
def covered (text : Str) (p : ℕ) : Bool :=
  (List.range (p + 1)).any fun q =>
    tags.any fun t => p < q + t.text.length && t.text.isPrefixOf (text.drop q)

/-- The characters outside of complete tags, in order. -/
def outsideTags (text : Str) : Str :=
  (List.range text.length).filterMap fun p => if covered text p then none else text[p]?

/-- The characters outside of tags, each with whether it is thought. -/
def labelled (inThinking : Bool) : Str → List (Bool × ℕ)
  | [] => []
  | c :: rest =>
    match tagAt (c :: rest) with
    | some t => labelled t.opens ((c :: rest).drop t.text.length)
    | none => (inThinking, c) :: labelled inThinking rest
termination_by text => text.length
decreasing_by
  · have := t.text_pos
    simp only [List.length_drop, List.length_cons]
    omega
  · simp

/-- The characters with one label. -/
def said (label : Bool) (pieces : List (Bool × ℕ)) : Str :=
  (pieces.filter fun e => e.1 == label).map Prod.snd

/-! ## Tags and parts of tags -/

theorem tagAt_eq_some {t : Tag} (h : tagAt text = some t) : t.text <+: text := by
  have hp := List.find?_some h
  exact List.isPrefixOf_iff_prefix.mp hp

theorem tagAt_eq_none : tagAt text = none ↔ ∀ t : Tag, ¬ t.text <+: text := by
  unfold tagAt
  rw [List.find?_eq_none]
  constructor
  · intro h t ht
    exact h t (by cases t <;> decide) (List.isPrefixOf_iff_prefix.mpr ht)
  · exact fun h t _ ht => h t (List.isPrefixOf_iff_prefix.mp ht)

/-- No tag begins another one. -/
theorem Tag.eq_of_prefix {t t' : Tag} (h : t.text <+: t'.text) : t = t' := by
  revert h
  cases t <;> cases t' <;> decide

/-- A text starts with one tag at most. -/
theorem Tag.eq_of_prefixes {t t' : Tag} (h : t.text <+: text) (h' : t'.text <+: text) :
    t = t' := by
  rcases List.prefix_or_prefix_of_prefix h h' with hp | hp
  · exact Tag.eq_of_prefix hp
  · exact (Tag.eq_of_prefix hp).symm

theorem tagAt_of_starts {t : Tag} (h : t.text <+: text) : tagAt text = some t := by
  cases ht : tagAt text with
  | none => exact absurd h (tagAt_eq_none.mp ht t)
  | some t' => rw [Tag.eq_of_prefixes (tagAt_eq_some ht) h]

/-- What may become a tag is a proper part of one. -/
theorem couldBeTag_iff :
    couldBeTag text = true ↔ ∃ t : Tag, text <+: t.text ∧ text.length < t.text.length := by
  unfold couldBeTag
  split_ifs with hlong
  · refine ⟨nofun, ?_⟩
    rintro ⟨t, -, hlt⟩
    have hmax : t.text.length ≤ Tag.hy3CloseTag.text.length := by cases t <;> decide
    omega
  · rw [List.any_eq_true]
    constructor
    · rintro ⟨t, -, ht⟩
      rw [Bool.and_eq_true, decide_eq_true_eq, beq_iff_eq] at ht
      refine ⟨t, ?_, ht.1⟩
      rw [← ht.2]
      exact List.take_prefix _ _
    · rintro ⟨t, hp, hlt⟩
      refine ⟨t, by cases t <;> decide, ?_⟩
      rw [Bool.and_eq_true, decide_eq_true_eq, beq_iff_eq]
      exact ⟨hlt, (List.prefix_iff_eq_take.mp hp).symm⟩

/-- What is neither a tag nor a part of one becomes neither by what follows. -/
theorem literal_append (more : Str) (htag : tagAt text = none) (hpart : ¬ couldBeTag text = true) :
    tagAt (text ++ more) = none ∧ ¬ couldBeTag (text ++ more) = true := by
  have hlong : ∀ t : Tag, text <+: t.text → text = t.text := by
    intro t hp
    by_contra hne
    refine hpart (couldBeTag_iff.mpr ⟨t, hp, ?_⟩)
    exact lt_of_le_of_ne hp.length_le fun hlen => hne (hp.eq_of_length hlen)
  constructor
  · rw [tagAt_eq_none] at htag ⊢
    intro t ht
    rcases List.prefix_or_prefix_of_prefix ht (List.prefix_append text more) with hp | hp
    · exact htag t hp
    · exact htag t (hlong t hp ▸ List.prefix_rfl)
  · rw [couldBeTag_iff]
    rintro ⟨t, hp, hlt⟩
    have htext := hlong t ((List.prefix_append text more).trans hp)
    rw [List.length_append, htext] at hlt
    omega

/-! ## A part, then the rest -/

/-- A pass after another. -/
def Scanned.followedBy (r r' : Scanned) : Scanned :=
  { r' with thinking := r.thinking ++ r'.thinking, content := r.content ++ r'.content }

theorem emit_followedBy (m : Bool) (c : ℕ) (r r' : Scanned) :
    (r.emit m c).followedBy r' = (r.followedBy r').emit m c := by
  cases m <;> rfl

theorem emit_buffer (m : Bool) (c : ℕ) (r : Scanned) : (r.emit m c).buffer = r.buffer := by
  cases m <;> rfl

theorem emit_inThinking (m : Bool) (c : ℕ) (r : Scanned) : (r.emit m c).inThinking = r.inThinking := by
  cases m <;> rfl

theorem emit_closeSeen (m : Bool) (c : ℕ) (r : Scanned) : (r.emit m c).closeSeen = r.closeSeen := by
  cases m <;> rfl

theorem scan_nil (m closed : Bool) : scan m closed [] = ⟨[], [], m, closed, []⟩ := by
  rw [scan]

theorem scan_tag {m closed : Bool} {t : Tag} (h : tagAt text = some t) :
    scan m closed text = scan t.opens (closed || !t.opens) (text.drop t.text.length) := by
  have hp := tagAt_eq_some h
  cases text with
  | nil =>
    have hlen := hp.length_le
    have hpos := t.text_pos
    rw [List.length_nil] at hlen
    omega
  | cons c rest =>
    have hc : c = 60 := by
      obtain ⟨more, hmore⟩ := hp
      cases t <;> exact (List.cons.inj hmore).1.symm
    rw [scan, if_pos hc, h]

theorem scan_part {m closed : Bool} (htag : tagAt text = none) (hpart : couldBeTag text = true)
    (hne : text ≠ []) :
    scan m closed text = ⟨[], [], m, closed, text⟩ := by
  cases text with
  | nil => exact absurd rfl hne
  | cons c rest =>
    have hc : c = 60 := by
      obtain ⟨t, ⟨more, hmore⟩, -⟩ := couldBeTag_iff.mp hpart
      cases t <;> exact (List.cons.inj hmore).1
    rw [scan, if_pos hc, htag]
    dsimp only
    rw [if_pos hpart]

theorem scan_literal {m closed : Bool} {c : ℕ} {rest : Str} (htag : tagAt (c :: rest) = none)
    (hpart : ¬ couldBeTag (c :: rest) = true) :
    scan m closed (c :: rest) = (scan m closed rest).emit m c := by
  rw [scan, htag]
  dsimp only
  rw [if_neg hpart, ite_self]

/-- Induction along the tags of a text. -/
theorem tag_induction {P : Str → Prop} (nil : P [])
    (tag : ∀ text t, tagAt text = some t → P (text.drop t.text.length) → P text)
    (literal : ∀ c rest, tagAt (c :: rest) = none → P rest → P (c :: rest)) (text : Str) : P text := by
  induction hn : text.length using Nat.strong_induction_on generalizing text with
  | _ n ih =>
    subst hn
    cases text with
    | nil => exact nil
    | cons c rest =>
      cases ht : tagAt (c :: rest) with
      | none => exact literal c rest ht (ih _ (by simp) _ rfl)
      | some t =>
        refine tag _ t ht (ih _ ?_ _ rfl)
        have hpos := t.text_pos
        rw [List.length_drop, List.length_cons]
        omega

/-- Induction along a pass. -/
theorem scan_induction {P : Str → Prop} (nil : P [])
    (tag : ∀ text t, tagAt text = some t → P (text.drop t.text.length) → P text)
    (part : ∀ text, tagAt text = none → couldBeTag text = true → text ≠ [] → P text)
    (literal : ∀ c rest, tagAt (c :: rest) = none → ¬ couldBeTag (c :: rest) = true → P rest →
      P (c :: rest)) (text : Str) : P text := by
  induction text using tag_induction with
  | nil => exact nil
  | tag text t ht ih => exact tag text t ht ih
  | literal c rest htag ih =>
    by_cases hpart : couldBeTag (c :: rest) = true
    · exact part _ htag hpart (List.cons_ne_nil _ _)
    · exact literal c rest htag hpart ih

/-- **A part is scanned, then what it left with the rest.** -/
theorem scan_append (m closed : Bool) (a b : Str) :
    scan m closed (a ++ b) = (scan m closed a).followedBy
      (scan (scan m closed a).inThinking (scan m closed a).closeSeen
        ((scan m closed a).buffer ++ b)) := by
  induction a using scan_induction generalizing m closed with
  | nil =>
    rw [scan_nil, List.nil_append]
    rfl
  | tag a t ht ih =>
    have hp := tagAt_eq_some ht
    rw [scan_tag ht, scan_tag (tagAt_of_starts (hp.trans (List.prefix_append a b))),
      List.drop_append_of_le_length hp.length_le, ih]
  | part a htag hpart hne =>
    rw [scan_part htag hpart hne]
    rfl
  | literal c rest htag hpart ih =>
    obtain ⟨htag', hpart'⟩ := literal_append b htag hpart
    rw [List.cons_append] at htag' hpart' ⊢
    rw [scan_literal htag' hpart', scan_literal htag hpart, emit_followedBy, emit_buffer,
      emit_inThinking, emit_closeSeen, ih]

/-! ## Streams -/

/-- A parser that was fed a text, piece by piece. -/
structure Tracks (start : Bool) (p : ThinkingParser) (text : Str) : Prop where
  inThinking : p.inThinking = (scan start false text).inThinking
  closeSeen : p.closeSeen = (scan start false text).closeSeen
  buffer : p.buffer = (scan start false text).buffer
  accumulated : p.thinkingAccumulated.flatten = (scan start false text).thinking
  nonempty : [] ∉ p.thinkingAccumulated
  emitted : p.contentEmitted = !(scan start false text).content.isEmpty

theorem tracks_init (start : Bool) : Tracks start (.init start) [] := by
  have hnil := scan_nil start false
  refine ⟨?_, ?_, ?_, ?_, List.not_mem_nil, ?_⟩
  all_goals
    rw [hnil]
    rfl

/-- One chunk: the parser keeps track, and brings what the chunk adds. -/
theorem Tracks.feed {start : Bool} {p : ThinkingParser} (h : Tracks start p text) (chunk : Str) :
    Tracks start (p.feed chunk).1 (text ++ chunk) ∧
      (scan start false (text ++ chunk)).thinking =
        (scan start false text).thinking ++ (p.feed chunk).2.1 ∧
      (scan start false (text ++ chunk)).content =
        (scan start false text).content ++ (p.feed chunk).2.2 := by
  unfold ThinkingParser.feed
  split_ifs with hempty
  · subst hempty
    rw [List.append_nil]
    exact ⟨h, (List.append_nil _).symm, (List.append_nil _).symm⟩
  · have happ := scan_append start false text chunk
    rw [h.inThinking, h.closeSeen, h.buffer]
    refine ⟨⟨?_, ?_, ?_, ?_, ?_, ?_⟩, congrArg Scanned.thinking happ, congrArg Scanned.content happ⟩
    · exact (congrArg Scanned.inThinking happ).symm
    · exact (congrArg Scanned.closeSeen happ).symm
    · exact (congrArg Scanned.buffer happ).symm
    · rw [congrArg Scanned.thinking happ]
      dsimp only [Scanned.followedBy]
      rw [← h.accumulated]
      split_ifs with hthinking
      · rw [hthinking, List.append_nil]
      · rw [List.flatten_append, List.flatten_singleton]
    · dsimp only
      split_ifs with hthinking
      · exact h.nonempty
      · rw [List.mem_append, List.mem_singleton, not_or]
        exact ⟨h.nonempty, fun heq => hthinking heq.symm⟩
    · rw [congrArg Scanned.content happ]
      dsimp only [Scanned.followedBy]
      rw [h.emitted]
      cases (scan start false text).content <;>
        cases (scan (scan start false text).inThinking (scan start false text).closeSeen
          ((scan start false text).buffer ++ chunk)).content <;> rfl

/-- **A stream brings what a pass over all of it brings.** -/
theorem feedAll_tracks {start : Bool} {p : ThinkingParser} (h : Tracks start p text) (chunks : List Str) :
    Tracks start (p.feedAll chunks).1 (text ++ chunks.flatten) ∧
      (scan start false (text ++ chunks.flatten)).thinking =
        (scan start false text).thinking ++ (p.feedAll chunks).2.1 ∧
      (scan start false (text ++ chunks.flatten)).content =
        (scan start false text).content ++ (p.feedAll chunks).2.2 := by
  induction chunks generalizing p text with
  | nil =>
    rw [List.flatten_nil, List.append_nil]
    exact ⟨h, (List.append_nil _).symm, (List.append_nil _).symm⟩
  | cons chunk chunks ih =>
    obtain ⟨htracks, hthinking, hcontent⟩ := h.feed chunk
    obtain ⟨htracks', hthinking', hcontent'⟩ := ih htracks
    rw [List.flatten_cons, ← List.append_assoc]
    refine ⟨htracks', ?_, ?_⟩
    · rw [hthinking', hthinking, List.append_assoc]
      rfl
    · rw [hcontent', hcontent, List.append_assoc]
      rfl

theorem isEmpty_of_tracks {start : Bool} {p : ThinkingParser} (h : Tracks start p text) :
    p.thinkingAccumulated.isEmpty = (scan start false text).thinking.isEmpty := by
  rw [← h.accumulated]
  cases hacc : p.thinkingAccumulated with
  | nil => rfl
  | cons x xs =>
    cases x with
    | nil =>
      have hne := h.nonempty
      rw [hacc] at hne
      exact absurd List.mem_cons_self hne
    | cons c x => rfl

/-- The end of a stream, by the pass over all of it. -/
def ending (r : Scanned) : Str × Str :=
  if r.inThinking && !r.closeSeen && r.content.isEmpty && !r.thinking.isEmpty then
    ([], r.thinking ++ r.buffer)
  else if r.inThinking then (r.buffer, []) else ([], r.buffer)

theorem recovers_of_tracks {start : Bool} {p : ThinkingParser} (h : Tracks start p text) :
    p.recovers = ((scan start false text).inThinking && !(scan start false text).closeSeen &&
      (scan start false text).content.isEmpty && !(scan start false text).thinking.isEmpty) := by
  unfold ThinkingParser.recovers
  rw [h.inThinking, h.closeSeen, h.emitted, isEmpty_of_tracks h, Bool.not_not]

theorem finish_of_tracks {start : Bool} {p : ThinkingParser} (h : Tracks start p text) :
    p.finish.2 = ending (scan start false text) := by
  unfold ThinkingParser.finish ending
  rw [← recovers_of_tracks h, ← h.inThinking, ← h.buffer, ← h.accumulated]
  dsimp only
  split_ifs with hrecovers hempty hthinking
  · rfl
  · rw [hempty]
  · rw [hempty]
  · rfl
  · rfl

/-- What is read of a stream is read of all of it at once. -/
theorem read_eq (start : Bool) (chunks : List Str) :
    read start chunks =
      ((scan start false chunks.flatten).thinking ++ (ending (scan start false chunks.flatten)).1,
        (scan start false chunks.flatten).content ++ (ending (scan start false chunks.flatten)).2) := by
  obtain ⟨htracks, hthinking, hcontent⟩ := feedAll_tracks (tracks_init start) chunks
  rw [scan_nil, List.nil_append, List.nil_append] at hthinking hcontent
  rw [List.nil_append] at htracks
  unfold read
  dsimp only
  rw [finish_of_tracks htracks, hthinking, hcontent]

/-! ## Every character once, in order -/

theorem covered_iff {p : ℕ} : covered text p = true ↔
    ∃ (t : Tag) (q : ℕ), q ≤ p ∧ p < q + t.text.length ∧ t.text <+: text.drop q := by
  unfold covered
  simp only [List.any_eq_true, List.mem_range, Bool.and_eq_true, decide_eq_true_eq,
    List.isPrefixOf_iff_prefix]
  constructor
  · rintro ⟨q, hq, t, -, hlt, hp⟩
    exact ⟨t, q, Nat.lt_succ_iff.mp hq, hlt, hp⟩
  · rintro ⟨t, q, hq, hlt, hp⟩
    exact ⟨q, Nat.lt_succ_of_le hq, t, by cases t <;> decide, hlt, hp⟩

/-- Only the first character of a tag opens one. -/
theorem Tag.inner {t : Tag} {q : ℕ} (hq : 0 < q) : t.text[q]? ≠ some 60 := by
  obtain ⟨q, rfl⟩ := Nat.exists_eq_succ_of_ne_zero hq.ne'
  have htail : 60 ∉ t.text.tail := by cases t <;> decide
  intro h
  rw [← List.getElem?_tail] at h
  exact htail (List.mem_of_getElem? h)

theorem covered_cons {c : ℕ} {rest : Str} (h : tagAt (c :: rest) = none) (p : ℕ) :
    covered (c :: rest) (p + 1) = covered rest p := by
  rw [Bool.eq_iff_iff, covered_iff, covered_iff]
  constructor
  · rintro ⟨t, q, hq, hlt, hp⟩
    cases q with
    | zero => exact absurd hp (tagAt_eq_none.mp h t)
    | succ q => exact ⟨t, q, by omega, by omega, hp⟩
  · rintro ⟨t, q, hq, hlt, hp⟩
    exact ⟨t, q + 1, by omega, by omega, hp⟩

theorem covered_zero {c : ℕ} {rest : Str} (h : tagAt (c :: rest) = none) :
    covered (c :: rest) 0 = false := by
  rw [Bool.eq_false_iff, ne_eq, covered_iff]
  rintro ⟨t, q, hq, -, hp⟩
  obtain rfl := Nat.le_zero.mp hq
  exact tagAt_eq_none.mp h t hp

theorem covered_tag {t : Tag} (h : t.text <+: text) {p : ℕ} (hp : p < t.text.length) :
    covered text p = true :=
  covered_iff.mpr ⟨t, 0, Nat.zero_le p, by omega, h⟩

/-- Behind a tag only later tags count. -/
theorem covered_drop {t : Tag} (h : t.text <+: text) (p : ℕ) :
    covered text (t.text.length + p) = covered (text.drop t.text.length) p := by
  rw [Bool.eq_iff_iff, covered_iff, covered_iff]
  constructor
  · rintro ⟨t', q, hq, hlt, hp⟩
    rcases Nat.lt_or_ge q t.text.length with hin | hout
    · exfalso
      rcases Nat.eq_zero_or_pos q with rfl | hpos
      · obtain rfl := Tag.eq_of_prefixes hp h
        omega
      · -- a tag that starts within another one has no first character
        have hfirst : t'.text[0]? = some 60 := by cases t' <;> decide
        have hat : text[q]? = some 60 := by
          obtain ⟨more, hmore⟩ := hp
          have hzero := congrArg (fun l => l[0]?) hmore
          rw [List.getElem?_append_left t'.text_pos, hfirst, List.getElem?_drop, Nat.add_zero] at hzero
          exact hzero.symm
        obtain ⟨more, rfl⟩ := h
        rw [List.getElem?_append_left hin] at hat
        exact Tag.inner hpos hat
    · refine ⟨t', q - t.text.length, by omega, by omega, ?_⟩
      rw [List.drop_drop, Nat.add_sub_cancel' hout]
      exact hp
  · rintro ⟨t', q, hq, hlt, hp⟩
    rw [List.drop_drop] at hp
    exact ⟨t', t.text.length + q, by omega, by omega, hp⟩

theorem outsideTags_literal {c : ℕ} {rest : Str} (h : tagAt (c :: rest) = none) :
    outsideTags (c :: rest) = c :: outsideTags rest := by
  unfold outsideTags
  rw [List.length_cons, List.range_succ_eq_map, List.filterMap_cons, covered_zero h,
    List.filterMap_map]
  refine congrArg (c :: ·) (congrArg (fun f => List.filterMap f _) (funext fun p => ?_))
  show (if covered (c :: rest) (p + 1) = true then none else (c :: rest)[p + 1]?) = _
  rw [covered_cons h, List.getElem?_cons_succ]

theorem outsideTags_tag {t : Tag} (h : t.text <+: text) :
    outsideTags text = outsideTags (text.drop t.text.length) := by
  have hlen : text.length = t.text.length + (text.drop t.text.length).length := by
    have := h.length_le
    rw [List.length_drop]
    omega
  unfold outsideTags
  rw [hlen, List.range_add, List.filterMap_append, List.filterMap_map]
  have hnone : (List.range t.text.length).filterMap
      (fun p => if covered text p = true then none else text[p]?) = [] := by
    rw [List.filterMap_eq_nil_iff]
    intro p hp
    rw [if_pos (covered_tag h (List.mem_range.mp hp))]
  rw [hnone, List.nil_append]
  refine congrArg (fun f => List.filterMap f _) (funext fun p => ?_)
  show (if covered text (t.text.length + p) = true then none else text[t.text.length + p]?) = _
  rw [covered_drop h, List.getElem?_drop]

theorem labelled_tag {m : Bool} {t : Tag} (h : tagAt text = some t) :
    labelled m text = labelled t.opens (text.drop t.text.length) := by
  cases text with
  | nil =>
    have hlen := (tagAt_eq_some h).length_le
    have hpos := t.text_pos
    rw [List.length_nil] at hlen
    omega
  | cons c rest => rw [labelled, h]

theorem labelled_literal {m : Bool} {c : ℕ} {rest : Str} (h : tagAt (c :: rest) = none) :
    labelled m (c :: rest) = (m, c) :: labelled m rest := by
  rw [labelled, h]

theorem labelled_nil (m : Bool) : labelled m [] = [] := by
  rw [labelled]

/-- Without a first character of a tag everything is said as it is. -/
theorem labelled_plain {m : Bool} (h : 60 ∉ text) : labelled m text = text.map (m, ·) := by
  induction text with
  | nil => exact labelled_nil m
  | cons c rest ih =>
    rw [List.mem_cons, not_or] at h
    have htag : tagAt (c :: rest) = none := by
      refine tagAt_eq_none.mpr fun t ⟨more, hmore⟩ => ?_
      cases t <;> exact h.1 (List.cons.inj hmore).1
    rw [labelled_literal htag, ih h.2]
    rfl

/-- A part of a tag is said as it is. -/
theorem labelled_part {m : Bool} (htag : tagAt text = none) (hpart : couldBeTag text = true) :
    labelled m text = text.map (m, ·) := by
  cases text with
  | nil => exact labelled_nil m
  | cons c rest =>
    obtain ⟨t, ⟨more, hmore⟩, -⟩ := couldBeTag_iff.mp hpart
    have hplain : 60 ∉ rest := by
      have htail : 60 ∉ t.text.tail := by cases t <;> decide
      rw [← hmore] at htail
      exact fun hmem => htail (List.mem_append_left more hmem)
    rw [labelled_literal htag, labelled_plain hplain]
    rfl

/-- **Every character outside of tags is said once, in order.** -/
theorem labelled_snd (m : Bool) (text : Str) : (labelled m text).map Prod.snd = outsideTags text := by
  induction text using tag_induction generalizing m with
  | nil =>
    rw [labelled_nil]
    rfl
  | tag text t ht ih => rw [labelled_tag ht, ih, outsideTags_tag (tagAt_eq_some ht)]
  | literal c rest htag ih =>
    rw [labelled_literal htag, outsideTags_literal htag, List.map_cons, ih]

theorem said_cons (label m : Bool) (c : ℕ) (pieces : List (Bool × ℕ)) :
    said label ((m, c) :: pieces) = if m = label then c :: said label pieces else said label pieces := by
  unfold said
  by_cases h : m = label
  · rw [if_pos h, List.filter_cons_of_pos (by simpa using h), List.map_cons]
  · rw [if_neg h, List.filter_cons_of_neg (by simpa using h)]

theorem said_map (label m : Bool) (text : Str) :
    said label (text.map (m, ·)) = if m = label then text else [] := by
  induction text with
  | nil => exact (ite_self _).symm
  | cons c rest ih =>
    rw [List.map_cons, said_cons, ih]
    split_ifs <;> rfl

/-- A pass thinks what is thought, but for what waits in the buffer. -/
theorem scan_said (m closed : Bool) (text : Str) :
    said true (labelled m text) = (scan m closed text).thinking ++
        (if (scan m closed text).inThinking = true then (scan m closed text).buffer else []) ∧
      said false (labelled m text) = (scan m closed text).content ++
        (if (scan m closed text).inThinking = true then [] else (scan m closed text).buffer) := by
  induction text using scan_induction generalizing m closed with
  | nil =>
    rw [scan_nil, labelled_nil]
    cases m <;> exact ⟨rfl, rfl⟩
  | tag text t ht ih =>
    rw [scan_tag ht, labelled_tag ht]
    exact ih _ _
  | part text htag hpart hne =>
    rw [scan_part htag hpart hne, labelled_part htag hpart, said_map, said_map]
    cases m <;> exact ⟨rfl, rfl⟩
  | literal c rest htag hpart ih =>
    obtain ⟨hthinking, hcontent⟩ := ih m closed
    rw [scan_literal htag hpart, labelled_literal htag, said_cons, said_cons, emit_inThinking,
      emit_buffer, hthinking, hcontent]
    cases m <;> exact ⟨rfl, rfl⟩

/-- **Where a stream is cut does not matter**, and where nothing is recovered every character
outside of tags is thought or said, once and in order. -/
theorem thinking_chunking (startInThinking : Bool) (chunks chunks' : List Str)
    (h : chunks.flatten = chunks'.flatten) :
    read startInThinking chunks = read startInThinking chunks' ∧
    (((ThinkingParser.init startInThinking).feedAll chunks).1.recovers = false →
      ∃ pieces : List (Bool × ℕ), pieces.map Prod.snd = outsideTags chunks.flatten ∧
        read startInThinking chunks = (said true pieces, said false pieces)) := by
  refine ⟨by rw [read_eq, read_eq, h], fun hrecovers => ?_⟩
  obtain ⟨htracks, -, -⟩ := feedAll_tracks (tracks_init startInThinking) chunks
  rw [List.nil_append] at htracks
  obtain ⟨hthinking, hcontent⟩ := scan_said startInThinking false chunks.flatten
  refine ⟨labelled startInThinking chunks.flatten, labelled_snd _ _, ?_⟩
  rw [read_eq, hthinking, hcontent]
  unfold ending
  rw [← recovers_of_tracks htracks, hrecovers, if_neg Bool.false_ne_true]
  split_ifs
  · rfl
  · rfl

/-- A tag that is cut in two, in a model that starts to think. -/
theorem thinking_chunking_cut :
    read true [str "so", str "</thi", str "nk>yes"] = read true [str "so</think>yes"] ∧
    ∃ pieces : List (Bool × ℕ),
      pieces.map Prod.snd = outsideTags [str "so", str "</thi", str "nk>yes"].flatten ∧
      read true [str "so", str "</thi", str "nk>yes"] = (said true pieces, said false pieces) := by
  obtain ⟨hsame, hpieces⟩ := thinking_chunking true [str "so", str "</thi", str "nk>yes"]
    [str "so</think>yes"] (by decide)
  exact ⟨hsame, hpieces (by decide +kernel)⟩

end AI2Apps.Omlx
