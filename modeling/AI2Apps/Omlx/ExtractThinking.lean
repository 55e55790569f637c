import AI2Apps.Lib.TextReplace
import Mathlib.Data.List.Infix

/-!
# The thinking of a complete text

`extract_thinking` separates what a model thinks from what it says in a complete text: whole
blocks, a beginning without opening tag, and an opening tag that is never closed.

* `extractThinking`: the function.
* `extractBlocks_ends`: no block is left.
* `extractThinking_section`: after one thinking section the rest of the text is said.
-/

namespace AI2Apps.Omlx

open TextReplace TextOrder

/-! ## The code -/

def openingTag : Str := str "<think>"
def closingTag : Str := str "</think>"
def minimaxOpeningTag : Str := str "<mm:think>"
def minimaxClosingTag : Str := str "</mm:think>"
def sourceOpeningTag : Str := str "<think:opensource>"
def sourceClosingTag : Str := str "</think:opensource>"

/-- The tags of other models are read as the usual ones. -/
def usualTags (text : Str) : Str :=
  let text := replace text minimaxOpeningTag openingTag
  let text := replace text minimaxClosingTag closingTag
  let text := replace text sourceOpeningTag openingTag
  replace text sourceClosingTag closingTag

/-- What is before the first occurrence of a part and what is after it. -/
def splitAt? (part : Str) : Str → Option (Str × Str)
  | [] => none
  | c :: rest =>
    if part <+: c :: rest then some ([], (c :: rest).drop part.length)
    else (splitAt? part rest).map fun p => (c :: p.1, p.2)

/-- The first match of `<think>(.*?)</think>`: what is before it, in it and after it. -/
def thinkingBlock (text : Str) : Option (Str × Str × Str) := do
  let (before, rest) ← splitAt? openingTag text
  let (thought, after) ← splitAt? closingTag rest
  return (before, thought, after)

/-- The blocks are taken out one after the other. -/
def extractBlocks : ℕ → Str → List Str × Str
  | 0, text => ([], text)
  | fuel + 1, text =>
    match thinkingBlock text with
    | none => ([], text)
    | some (before, thought, after) =>
      let r := extractBlocks fuel (before ++ after)
      (thought :: r.1, r.2)

/-- `extract_thinking`. -/
def extractThinking (text : Str) : Str × Str :=
  let text := usualTags text
  let (parts, remaining) := extractBlocks text.length text
  if parts ≠ [] then (strip ([10].intercalate parts), strip remaining)
  else
    match splitAt? openingTag text, splitAt? closingTag text with
    | none, some (thought, after) => (strip thought, strip after)
    | some (before, after), none => ([], strip (before ++ after))
    | _, _ => ([], text)

/-! ## Splitting -/

theorem splitAt?_eq_some {part : Str} : ∀ {text before after : Str},
    splitAt? part text = some (before, after) → text = before ++ part ++ after
  | [], _, _, h => by cases h
  | c :: rest, before, after, h => by
    rw [splitAt?] at h
    split_ifs at h with hstarts
    · cases h
      obtain ⟨t, ht⟩ := hstarts
      rw [← ht]
      simp
    · obtain ⟨⟨before', after'⟩, hrest, heq⟩ := Option.map_eq_some_iff.mp h
      cases heq
      rw [splitAt?_eq_some hrest]
      rfl

/-- No block is left in the text. -/
theorem extractBlocks_ends : ∀ {fuel : ℕ} {text : Str}, text.length ≤ fuel →
    thinkingBlock (extractBlocks fuel text).2 = none
  | 0, text, h => by
    rw [List.length_eq_zero_iff.mp (Nat.le_zero.mp h)]
    rfl
  | fuel + 1, text, h => by
    rw [extractBlocks]
    cases hblock : thinkingBlock text with
    | none => exact hblock
    | some p =>
      obtain ⟨before, thought, after⟩ := p
      dsimp only
      refine extractBlocks_ends ?_
      simp only [thinkingBlock, Option.bind_eq_bind, Option.bind_eq_some_iff, Option.pure_def,
        Option.some.injEq] at hblock
      obtain ⟨⟨before', rest⟩, hopen, ⟨thought', after'⟩, hclose, heq⟩ := hblock
      cases heq
      have hlength := congrArg List.length (splitAt?_eq_some hopen)
      have hlength' := congrArg List.length (splitAt?_eq_some hclose)
      have hpos : 0 < openingTag.length := by decide
      simp only [List.length_append] at hlength hlength' ⊢
      omega

/-! ## Tags in a text -/

/-- All opening tags, and all closing tags. -/
def openingTags : List Str := [openingTag, minimaxOpeningTag, sourceOpeningTag]
def closingTags : List Str := [closingTag, minimaxClosingTag, sourceClosingTag]

/-- The text has no tag. -/
def Tagless (text : Str) : Prop :=
  ∀ tag ∈ openingTags ++ closingTags, ¬ tag <:+: text

instance (text : Str) : Decidable (Tagless text) :=
  inferInstanceAs (Decidable (∀ tag ∈ openingTags ++ closingTags, ¬ tag <:+: text))

/-- A tag begins with the one `<` that it has. -/
theorem tag_eq : ∀ tag ∈ openingTags ++ closingTags,
    tag.head? = some 60 ∧ 60 ∉ tag.tail ∧ tag ≠ [] := by
  decide

/-- No tag begins another one. -/
theorem tag_unrelated : ∀ tag ∈ openingTags ++ closingTags, ∀ tag' ∈ openingTags ++ closingTags,
    tag <+: tag' → tag = tag' := by
  decide

/-- A tag that begins a text before a `<` ends before it. -/
theorem prefix_of_mark {tag s z : Str} (h60 : 60 ∉ tag.tail) (hs : s ≠ [])
    (h : tag <+: s ++ 60 :: z) : tag <+: s := by
  rcases List.prefix_or_prefix_of_prefix h (List.prefix_append s (60 :: z)) with hle | hge
  · exact hle
  · obtain ⟨t, rfl⟩ := hge
    obtain ⟨c, s, rfl⟩ := List.exists_cons_of_ne_nil hs
    cases t with
    | nil => simp
    | cons d t =>
      obtain rfl : d = 60 :=
        (List.cons_prefix_cons.mp ((List.prefix_append_right_inj (c :: s)).mp h)).1
      exact absurd (by simp) h60

theorem prefix_of_tags {tag tag' y : Str} (h : tag ∈ openingTags ++ closingTags)
    (h' : tag' ∈ openingTags ++ closingTags) (hstarts : tag <+: tag' ++ y) : tag = tag' := by
  rcases List.prefix_or_prefix_of_prefix hstarts (List.prefix_append tag' y) with hle | hge
  · exact tag_unrelated tag h tag' h' hle
  · exact (tag_unrelated tag' h' tag h hge).symm

section Passing

variable {α : Type} {f : Str → α} {g : ℕ → α → α} {tag : Str}

/-- Before a `<`, a text without the tag is passed over. -/
theorem pass_tagless (hpass : ∀ c rest, ¬ tag <+: c :: rest → f (c :: rest) = g c (f rest))
    (h60 : 60 ∉ tag.tail) {z : Str} : ∀ {t : Str}, ¬ tag <:+: t →
      f (t ++ 60 :: z) = t.foldr g (f (60 :: z))
  | [], _ => rfl
  | c :: t, h => by
    have hstarts : ¬ tag <+: c :: (t ++ 60 :: z) := fun hp =>
      h (prefix_of_mark (s := c :: t) h60 (by simp) hp).isInfix
    rw [List.cons_append, hpass c _ hstarts, pass_tagless hpass h60 fun hinside =>
      h (hinside.trans (List.suffix_cons c t).isInfix)]
    rfl

/-- A text without `<` is passed over. -/
theorem pass_unmarked (hpass : ∀ c rest, ¬ tag <+: c :: rest → f (c :: rest) = g c (f rest))
    (hhead : tag.head? = some 60) {y : Str} : ∀ {t : Str}, 60 ∉ t → f (t ++ y) = t.foldr g (f y)
  | [], _ => rfl
  | c :: t, h => by
    rw [List.mem_cons, not_or] at h
    have hstarts : ¬ tag <+: c :: (t ++ y) := by
      cases tag with
      | nil => cases hhead
      | cons d tag =>
        intro hp
        obtain rfl : d = 60 := Option.some.inj hhead
        exact h.1 (List.cons_prefix_cons.mp hp).1
    rw [List.cons_append, hpass c _ hstarts, pass_unmarked hpass hhead h.2]
    rfl

/-- Another tag is passed over. -/
theorem pass_tag (hpass : ∀ c rest, ¬ tag <+: c :: rest → f (c :: rest) = g c (f rest))
    (htag : tag ∈ openingTags ++ closingTags) {tag' : Str} (htag' : tag' ∈ openingTags ++ closingTags)
    (hne : tag ≠ tag') (y : Str) : f (tag' ++ y) = tag'.foldr g (f y) := by
  obtain ⟨hhead, -, -⟩ := tag_eq tag htag
  obtain ⟨hhead', h60, -⟩ := tag_eq tag' htag'
  cases tag' with
  | nil => cases hhead'
  | cons c rest =>
    have hstarts : ¬ tag <+: c :: (rest ++ y) := fun hp => hne (prefix_of_tags htag htag' hp)
    rw [List.cons_append, hpass c _ hstarts, pass_unmarked hpass hhead (show 60 ∉ rest from h60)]
    rfl

end Passing

/-! ## Replacing tags around a section -/

theorem foldr_cons (t y : Str) : t.foldr List.cons y = t ++ y := by
  simp

/-- A tag before a text, before and after a replacement. -/
theorem replace_tag {tag tag' : Str} (htag : tag ∈ openingTags ++ closingTags)
    (htag' : tag' ∈ openingTags ++ closingTags) (new y : Str) :
    replace (tag' ++ y) tag new = (if tag' = tag then new else tag') ++ replace y tag new := by
  split_ifs with heq
  · rw [heq, replace_of_isPrefix (tag_eq tag htag).2.2]
  · rw [pass_tag (f := fun s => replace s tag new) (g := List.cons)
      (fun c rest h => replace_of_not_isPrefix h) htag htag' (Ne.symm heq), foldr_cons]

/-- A text without tags before a tag. -/
theorem replace_thought {tag tag' t : Str} (htag : tag ∈ openingTags ++ closingTags)
    (htag' : tag' ∈ openingTags ++ closingTags) (ht : Tagless t) (new y : Str) :
    replace (t ++ (tag' ++ y)) tag new =
      t ++ ((if tag' = tag then new else tag') ++ replace y tag new) := by
  obtain ⟨-, h60, -⟩ := tag_eq tag htag
  obtain ⟨hhead', -, -⟩ := tag_eq tag' htag'
  rw [← replace_tag htag htag' new y]
  cases tag' with
  | nil => cases hhead'
  | cons c rest =>
    obtain rfl : c = 60 := Option.some.inj hhead'
    rw [List.cons_append, pass_tagless (f := fun s => replace s tag new) (g := List.cons)
      (fun c rest h => replace_of_not_isPrefix h) h60 (ht tag htag), foldr_cons]

theorem replace_body {tag body : Str} (htag : tag ∈ openingTags ++ closingTags) (h : Tagless body)
    (new : Str) : replace body tag new = body :=
  replace_of_absent (h tag htag)

theorem usualTags_tagless {body : Str} (h : Tagless body) : usualTags body = body := by
  simp only [usualTags]
  rw [replace_body (by decide) h, replace_body (by decide) h, replace_body (by decide) h,
    replace_body (by decide) h]

/-- The closing tag of a section becomes the usual one. -/
theorem usualTags_thought {close thought body : Str} (hclose : close ∈ closingTags)
    (hthought : Tagless thought) (hbody : Tagless body) :
    usualTags (thought ++ (close ++ body)) = thought ++ (closingTag ++ body) := by
  simp only [closingTags, List.mem_cons, List.not_mem_nil, or_false] at hclose
  simp only [usualTags]
  rcases hclose with rfl | rfl | rfl
  all_goals
    rw [replace_thought (by decide) (by decide) hthought, replace_body (by decide) hbody,
      replace_thought (by decide) (by decide) hthought, replace_body (by decide) hbody,
      replace_thought (by decide) (by decide) hthought, replace_body (by decide) hbody,
      replace_thought (by decide) (by decide) hthought, replace_body (by decide) hbody]
    exact congrArg (fun tag => thought ++ (tag ++ body)) (by decide)

/-- The opening tag of a section becomes the usual one. -/
theorem usualTags_opening {opening : Str} (hopening : opening ∈ openingTags) (y : Str) :
    usualTags (opening ++ y) = openingTag ++ usualTags y := by
  simp only [openingTags, List.mem_cons, List.not_mem_nil, or_false] at hopening
  simp only [usualTags]
  rcases hopening with rfl | rfl | rfl
  all_goals
    rw [replace_tag (by decide) (by decide), replace_tag (by decide) (by decide),
      replace_tag (by decide) (by decide), replace_tag (by decide) (by decide)]
    exact congrArg (· ++ _) (by decide)

/-! ## One section -/

theorem splitAt?_of_absent {part : Str} : ∀ {text : Str}, ¬ part <:+: text →
    splitAt? part text = none
  | [], _ => rfl
  | c :: rest, h => by
    rw [splitAt?, if_neg fun hp => h hp.isInfix,
      splitAt?_of_absent fun hinside => h (hinside.trans (List.suffix_cons c rest).isInfix)]
    rfl

theorem splitAt?_starts {part : Str} (h : part ≠ []) (y : Str) :
    splitAt? part (part ++ y) = some ([], y) := by
  obtain ⟨c, rest, rfl⟩ := List.exists_cons_of_ne_nil h
  have hstarts : c :: rest <+: c :: (rest ++ y) := List.prefix_append (c :: rest) y
  rw [List.cons_append, splitAt?, if_pos hstarts, ← List.cons_append, List.drop_left]

theorem splitAt?_pass {part : Str} (c : ℕ) (rest : Str) (h : ¬ part <+: c :: rest) :
    splitAt? part (c :: rest) = (splitAt? part rest).map fun p => (c :: p.1, p.2) :=
  if_neg h

theorem foldr_splitAt (t : Str) (p : Str × Str) :
    t.foldr (fun c r => r.map fun p : Str × Str => (c :: p.1, p.2)) (some p) =
      some (t ++ p.1, p.2) := by
  induction t with
  | nil => rfl
  | cons c t ih => rw [List.foldr_cons, ih]; rfl

theorem foldr_splitAt_none (t : Str) :
    t.foldr (fun c r => r.map fun p : Str × Str => (c :: p.1, p.2)) none = none := by
  induction t with
  | nil => rfl
  | cons c t ih => rw [List.foldr_cons, ih]; rfl

/-- The closing tag is found after a thought. -/
theorem splitAt?_closing {thought : Str} (h : Tagless thought) (body : Str) :
    splitAt? closingTag (thought ++ (closingTag ++ body)) = some (thought, body) := by
  obtain ⟨-, h60, -⟩ := tag_eq closingTag (by decide)
  have hmark : closingTag ++ body = 60 :: (closingTag.tail ++ body) := rfl
  rw [hmark, pass_tagless splitAt?_pass h60 (h closingTag (by decide)), ← hmark,
    splitAt?_starts (by decide), foldr_splitAt, List.append_nil]

/-- No opening tag is found. -/
theorem splitAt?_opening {thought body : Str} (h : Tagless thought) (hbody : Tagless body) :
    splitAt? openingTag (thought ++ (closingTag ++ body)) = none := by
  obtain ⟨-, h60, -⟩ := tag_eq openingTag (by decide)
  have hmark : closingTag ++ body = 60 :: (closingTag.tail ++ body) := rfl
  rw [hmark, pass_tagless splitAt?_pass h60 (h openingTag (by decide)), ← hmark,
    pass_tag splitAt?_pass (by decide) (by decide) (by decide),
    splitAt?_of_absent (hbody openingTag (by decide)), foldr_splitAt_none, foldr_splitAt_none]

theorem thinkingBlock_of_no_opening {text : Str} (h : splitAt? openingTag text = none) :
    thinkingBlock text = none := by
  rw [thinkingBlock, h]
  rfl

theorem extractBlocks_of_no_opening {text : Str} (h : splitAt? openingTag text = none) :
    ∀ fuel, extractBlocks fuel text = ([], text)
  | 0 => rfl
  | fuel + 1 => by rw [extractBlocks, thinkingBlock_of_no_opening h]

/-- What stands before an answer: nothing, a thinking section, or one without opening tag. -/
inductive ThinkingSection : Str → Prop where
  | nothing : ThinkingSection []
  | block {opening close thought : Str} : opening ∈ openingTags → close ∈ closingTags →
      Tagless thought → ThinkingSection (opening ++ (thought ++ close))
  | unopened {close thought : Str} : close ∈ closingTags → Tagless thought →
      ThinkingSection (thought ++ close)

theorem extractThinking_tagless {body : Str} (h : Tagless body) : (extractThinking body).2 = body := by
  have hopening := splitAt?_of_absent (h openingTag (by decide))
  have hclosing := splitAt?_of_absent (h closingTag (by decide))
  simp only [extractThinking, usualTags_tagless h, extractBlocks_of_no_opening hopening, hopening,
    hclosing]
  rfl

/-- **After a thinking section the rest of the text is said, up to the space around it.** -/
theorem extractThinking_section {front body : Str} (h : ThinkingSection front)
    (hbody : Tagless body) : (extractThinking (front ++ body)).2 = body ∨
      (extractThinking (front ++ body)).2 = strip body := by
  cases h with
  | nothing => exact .inl (extractThinking_tagless hbody)
  | @block opening close thought hopening hclose hthought =>
    right
    have husual : usualTags (opening ++ (thought ++ close) ++ body) =
        openingTag ++ (thought ++ (closingTag ++ body)) := by
      rw [List.append_assoc, usualTags_opening hopening, List.append_assoc,
        usualTags_thought hclose hthought hbody]
    have hblock : thinkingBlock (openingTag ++ (thought ++ (closingTag ++ body))) =
        some ([], thought, body) := by
      rw [thinkingBlock, splitAt?_starts (by decide)]
      simp only [Option.bind_eq_bind, Option.bind_some, splitAt?_closing hthought]
      rfl
    obtain ⟨n, hn⟩ : ∃ n, (openingTag ++ (thought ++ (closingTag ++ body))).length = n + 1 :=
      ⟨_, rfl⟩
    have hblocks : extractBlocks (n + 1) (openingTag ++ (thought ++ (closingTag ++ body))) =
        ([thought], body) := by
      rw [extractBlocks, hblock]
      simp only [List.nil_append,
        extractBlocks_of_no_opening (splitAt?_of_absent (hbody openingTag (by decide)))]
    simp only [extractThinking, husual, hn, hblocks]
    rfl
  | @unopened close thought hclose hthought =>
    right
    have husual : usualTags (thought ++ close ++ body) = thought ++ (closingTag ++ body) := by
      rw [List.append_assoc, usualTags_thought hclose hthought hbody]
    simp only [extractThinking, husual,
      extractBlocks_of_no_opening (splitAt?_opening hthought hbody), splitAt?_opening hthought hbody,
      splitAt?_closing hthought]
    rfl

end AI2Apps.Omlx
