import AI2Apps.Lib.TextOrder

/-!
# Replacing a part of a text

`str.count` and `str.replace` of the modelled language: the occurrences are found from the left and
do not overlap.  `translate` is what reading in text mode does to line endings.

* `count`, `replace`, `translate`: the functions.
* `replace_of_count_eq_one`: one occurrence is replaced, and what is around it stays.
* `translate_eq_self`: a text without carriage returns is read as it is.
* `mem_replace_of_mem`: a character that the replaced part does not have stays.
-/

namespace AI2Apps.TextReplace

/-- The occurrences after `skip` more characters. -/
def countFrom (old : Str) : ℕ → Str → ℕ
  | _, [] => 0
  | skip + 1, _ :: rest => countFrom old skip rest
  | 0, c :: rest =>
    if old <+: c :: rest then countFrom old (old.length - 1) rest + 1 else countFrom old 0 rest

/-- `text.count(old)`, of a part that is not empty. -/
def count (text old : Str) : ℕ := countFrom old 0 text

/-- The text with its occurrences after `skip` more characters replaced, without these characters. -/
def replaceFrom (old new : Str) : ℕ → Str → Str
  | _, [] => []
  | skip + 1, _ :: rest => replaceFrom old new skip rest
  | 0, c :: rest =>
    if old <+: c :: rest then new ++ replaceFrom old new (old.length - 1) rest
    else c :: replaceFrom old new 0 rest

/-- `text.replace(old, new)`, of a part that is not empty. -/
def replace (text old new : Str) : Str := replaceFrom old new 0 text

/-- Universal newlines: `\r\n` and `\r` are read as `\n`. -/
def translate : Str → Str
  | [] => []
  | 13 :: 10 :: rest => 10 :: translate rest
  | 13 :: rest => 10 :: translate rest
  | c :: rest => c :: translate rest

variable {old new text : Str}

theorem countFrom_drop : ∀ (skip : ℕ) (text : Str), countFrom old skip text = countFrom old 0 (text.drop skip)
  | 0, text => by rw [List.drop_zero]
  | skip + 1, [] => rfl
  | skip + 1, c :: rest => by rw [countFrom, countFrom_drop skip rest, List.drop_succ_cons]

theorem replaceFrom_drop :
    ∀ (skip : ℕ) (text : Str), replaceFrom old new skip text = replaceFrom old new 0 (text.drop skip)
  | 0, text => by rw [List.drop_zero]
  | skip + 1, [] => rfl
  | skip + 1, c :: rest => by rw [replaceFrom, replaceFrom_drop skip rest, List.drop_succ_cons]

/-- At an occurrence. -/
theorem count_of_isPrefix (hold : old ≠ []) (rest : Str) : count (old ++ rest) old = count rest old + 1 := by
  obtain ⟨c, tail, rfl⟩ := List.exists_cons_of_ne_nil hold
  rw [count, List.cons_append, countFrom, if_pos ⟨rest, rfl⟩, countFrom_drop, count, List.length_cons,
    Nat.add_sub_cancel, List.drop_left]

theorem replace_of_isPrefix (hold : old ≠ []) (rest : Str) :
    replace (old ++ rest) old new = new ++ replace rest old new := by
  obtain ⟨c, tail, rfl⟩ := List.exists_cons_of_ne_nil hold
  rw [replace, List.cons_append, replaceFrom, if_pos ⟨rest, rfl⟩, replaceFrom_drop, replace,
    List.length_cons, Nat.add_sub_cancel, List.drop_left]

theorem count_of_not_isPrefix {c : ℕ} {rest : Str} (h : ¬ old <+: c :: rest) :
    count (c :: rest) old = count rest old := by
  rw [count, countFrom, if_neg h, count]

theorem replace_of_not_isPrefix {c : ℕ} {rest : Str} (h : ¬ old <+: c :: rest) :
    replace (c :: rest) old new = c :: replace rest old new := by
  rw [replace, replaceFrom, if_neg h, replace]

/-- A text without the part is left as it is. -/
theorem replace_of_absent : ∀ {text : Str}, ¬ old <:+: text → replace text old new = text
  | [], _ => rfl
  | c :: rest, h => by
    rw [replace_of_not_isPrefix fun hp => h hp.isInfix,
      replace_of_absent fun hinside => h (hinside.trans (List.suffix_cons c rest).isInfix)]

/-- The induction over a text by the occurrences that are found. -/
theorem induction_on_occurrences (hold : old ≠ []) {P : Str → Prop} (nil : P [])
    (found : ∀ rest, P rest → P (old ++ rest))
    (other : ∀ c rest, ¬ old <+: c :: rest → P rest → P (c :: rest)) : ∀ text, P text := by
  intro text
  induction hn : text.length using Nat.strong_induction_on generalizing text with
  | _ n ih =>
    rcases text with _ | ⟨c, rest⟩
    · exact nil
    · by_cases h : old <+: c :: rest
      · obtain ⟨tail, htail⟩ := h
        rw [← htail]
        refine found tail (ih tail.length ?_ tail rfl)
        have hpos : 0 < old.length := List.length_pos_iff.mpr hold
        rw [← hn, ← htail, List.length_append]
        omega
      · refine other c rest h (ih rest.length ?_ rest rfl)
        rw [← hn, List.length_cons]
        omega

/-- Without an occurrence nothing is replaced. -/
theorem replace_of_count_eq_zero (hold : old ≠ []) :
    ∀ text, count text old = 0 → replace text old new = text := by
  refine induction_on_occurrences hold (fun _ => rfl) (fun rest _ h => ?_) fun c rest hc ih h => ?_
  · rw [count_of_isPrefix hold] at h
    omega
  · rw [count_of_not_isPrefix hc] at h
    rw [replace_of_not_isPrefix hc, ih h]

/-- **One occurrence is replaced, and what is around it stays.** -/
theorem replace_of_count_eq_one (hold : old ≠ []) : ∀ text, count text old = 1 →
    ∃ before after, text = before ++ old ++ after ∧ replace text old new = before ++ new ++ after := by
  refine induction_on_occurrences hold (fun h => ?_) (fun rest _ h => ?_) fun c rest hc ih h => ?_
  · cases h
  · rw [count_of_isPrefix hold] at h
    refine ⟨[], rest, rfl, ?_⟩
    rw [replace_of_isPrefix hold, replace_of_count_eq_zero hold rest (by omega)]
    rfl
  · rw [count_of_not_isPrefix hc] at h
    obtain ⟨before, after, htext, hreplace⟩ := ih h
    refine ⟨c :: before, after, by rw [htext]; rfl, ?_⟩
    rw [replace_of_not_isPrefix hc, hreplace]
    rfl

variable {c : ℕ}

/-- What is found has only characters of the text. -/
theorem mem_of_count_ne_zero (hold : old ≠ []) (hc : c ∈ old) :
    ∀ text, count text old ≠ 0 → c ∈ text := by
  refine induction_on_occurrences hold (fun h => absurd rfl h) (fun rest _ _ => ?_) fun d rest hd ih h => ?_
  · exact List.mem_append_left _ hc
  · rw [count_of_not_isPrefix hd] at h
    exact List.mem_cons_of_mem _ (ih h)

/-- A character that the replaced part does not have stays. -/
theorem mem_replace_of_mem (hold : old ≠ []) (hc : c ∉ old) :
    ∀ text, c ∈ text → c ∈ replace text old new := by
  refine induction_on_occurrences hold (fun h => h) (fun rest ih h => ?_) fun d rest hd ih h => ?_
  · rw [replace_of_isPrefix hold]
    exact List.mem_append_right _ (ih ((List.mem_append.mp h).resolve_left hc))
  · rw [replace_of_not_isPrefix hd]
    rcases List.mem_cons.mp h with rfl | h
    · exact List.mem_cons_self ..
    · exact List.mem_cons_of_mem _ (ih h)

/-- A character of the result is in the text or in the replacement. -/
theorem mem_of_mem_replace (hold : old ≠ []) :
    ∀ text, c ∈ replace text old new → c ∈ text ∨ c ∈ new := by
  refine induction_on_occurrences hold (fun h => Or.inl h) (fun rest ih h => ?_) fun d rest hd ih h => ?_
  · rw [replace_of_isPrefix hold] at h
    rcases List.mem_append.mp h with h | h
    · exact Or.inr h
    · exact (ih h).imp_left (List.mem_append_right _)
  · rw [replace_of_not_isPrefix hd] at h
    rcases List.mem_cons.mp h with rfl | h
    · exact Or.inl (List.mem_cons_self ..)
    · exact (ih h).imp_left (List.mem_cons_of_mem _)

/-- **A text without carriage returns is read as it is.** -/
theorem translate_eq_self : ∀ {text : Str}, 13 ∉ text → translate text = text
  | [], _ => rfl
  | c :: rest, h => by
    rw [List.mem_cons, not_or] at h
    have hc : c ≠ 13 := fun he => h.1 he.symm
    rw [translate, translate_eq_self h.2]
    · intro _ he
      exact absurd he hc
    · exact hc

theorem notMem_translate : ∀ text : Str, 13 ∉ translate text := by
  intro text
  induction text using translate.induct with
  | case1 => simp [translate]
  | case2 rest ih => simpa [translate] using ih
  | case3 rest hne ih => simpa [translate] using ih
  | case4 c rest hcrlf hcr ih =>
    rw [translate, List.mem_cons, not_or]
    · exact ⟨fun he => hcr he.symm, ih⟩
    · exact hcrlf
    · exact hcr

end AI2Apps.TextReplace
