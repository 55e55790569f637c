import AI2Apps.Lib.TextReplace
import Mathlib.Data.List.Nodup

/-!
# Replaced texts that remember where their characters come from

A text under repeated replacement, each of its characters with its place in the first text or, for
a character that was put in, with none.  Forgetting the places gives back the replacement of plain
texts, so what is proved here about places holds of it.

* `pass`, `text_pass`: one replacement, and what it is on plain texts.
* `infix_of_infix_pass`: characters of the first text that stand side by side after a replacement
  stood side by side before it.
* `infix_pass_of_kept`: characters side by side that are all kept stay side by side.
* `exists_lost`: what spells the replaced part is not kept as a whole.
* `characters`: the characters of an occurrence in the first text.
* `run`, `infix_text_run_iff`: after replacements of several parts in turn, a part is in the text
  only where it is read with a character that was put in.
* `StandsFor`, `Exposed`, `standsFor_run`: every text that was put in stands for one part, as long as
  no part is made in the first text by what is put in beside it.
-/

namespace AI2Apps.Provenance

open TextReplace

/-- A text whose characters have their places in an earlier text, if they come from it. -/
abbrev Marked := List (ℕ × Option ℕ)

namespace Marked

/-- The text without the places. -/
def text (m : Marked) : Str := m.map Prod.fst

/-- The places that are left. -/
def places (m : Marked) : List ℕ := m.filterMap Prod.snd

/-- Every character comes from the earlier text. -/
def Placed (m : Marked) : Prop := ∀ x ∈ m, x.2 ≠ none

/-- All characters of the first are among those of the second. -/
def Kept (w m : Marked) : Prop := ∀ x ∈ w, x ∈ m

end Marked

open Marked

/-- A text with the places of its characters. -/
def number (text : Str) : Marked := text.zipIdx.map fun e => (e.1, some e.2)

/-- A text that is put in. -/
def inserted (text : Str) : Marked := text.map fun c => (c, none)

/-- The replacement after `skip` more characters, without these characters. -/
def passFrom (old new : Str) : ℕ → Marked → Marked
  | _, [] => []
  | skip + 1, _ :: rest => passFrom old new skip rest
  | 0, x :: rest =>
    if old <+: text (x :: rest) then inserted new ++ passFrom old new (old.length - 1) rest
    else x :: passFrom old new 0 rest

/-- The occurrences of a part replaced. -/
def pass (old new : Str) (m : Marked) : Marked := passFrom old new 0 m

variable {old new : Str} {m w f rest : Marked} {x : ℕ × Option ℕ}

/-! ## One replacement -/

theorem text_inserted (s : Str) : text (inserted s) = s := by
  rw [text, inserted, List.map_map]
  exact List.map_id s

theorem text_number (s : Str) : text (number s) = s := by
  rw [text, number, List.map_map]
  exact List.zipIdx_map_fst 0 s

theorem text_append (m m' : Marked) : text (m ++ m') = text m ++ text m' := List.map_append

/-- Without the places it is the replacement of texts. -/
theorem text_passFrom : ∀ (skip : ℕ) (m : Marked), text (passFrom old new skip m) = replaceFrom old new skip (text m)
  | 0, [] => rfl
  | skip + 1, [] => rfl
  | skip + 1, x :: rest => text_passFrom skip rest
  | 0, x :: rest => by
    have hcons : replaceFrom old new 0 (text (x :: rest)) =
        if old <+: text (x :: rest) then new ++ replaceFrom old new (old.length - 1) (text rest)
        else x.1 :: replaceFrom old new 0 (text rest) := rfl
    rw [hcons, passFrom]
    by_cases h : old <+: text (x :: rest)
    · rw [if_pos h, if_pos h, text_append, text_inserted, text_passFrom]
    · rw [if_neg h, if_neg h, ← text_passFrom 0 rest]
      rfl

theorem text_pass (m : Marked) : text (pass old new m) = replace (text m) old new := text_passFrom 0 m

theorem passFrom_drop : ∀ (skip : ℕ) (m : Marked), passFrom old new skip m = passFrom old new 0 (m.drop skip)
  | 0, m => by rw [List.drop_zero]
  | skip + 1, [] => rfl
  | skip + 1, x :: rest => by rw [passFrom, passFrom_drop skip rest, List.drop_succ_cons]

/-- At an occurrence. -/
theorem pass_found (hold : old ≠ []) (hf : text f = old) (rest : Marked) :
    pass old new (f ++ rest) = inserted new ++ pass old new rest := by
  rcases f with _ | ⟨x, tail⟩
  · exact absurd hf.symm hold
  · have hlength : old.length - 1 = tail.length := by
      rw [← hf, text, List.length_map, List.length_cons, Nat.add_sub_cancel]
    have hprefix : old <+: text (x :: (tail ++ rest)) := ⟨text rest, by rw [← hf, ← text_append]; rfl⟩
    rw [pass, List.cons_append, passFrom, if_pos hprefix, passFrom_drop, hlength, List.drop_left, pass]

theorem pass_other (h : ¬ old <+: text (x :: rest)) : pass old new (x :: rest) = x :: pass old new rest := by
  rw [pass, passFrom, if_neg h, pass]

/-- The induction over a marked text by the occurrences that are found. -/
theorem induction_on_found (hold : old ≠ []) {P : Marked → Prop} (nil : P [])
    (found : ∀ f rest, text f = old → P rest → P (f ++ rest))
    (other : ∀ x rest, ¬ old <+: text (x :: rest) → P rest → P (x :: rest)) : ∀ m, P m := by
  intro m
  induction hn : m.length using Nat.strong_induction_on generalizing m with
  | _ n ih =>
    rcases m with _ | ⟨x, rest⟩
    · exact nil
    · by_cases h : old <+: text (x :: rest)
      · obtain ⟨f, hf, hfold⟩ := List.prefix_map_iff.mp h
        obtain ⟨tail, htail⟩ := hf
        have hpos : 0 < f.length := by
          rw [← List.length_map (f := Prod.fst), ← hfold]
          exact List.length_pos_iff.mpr hold
        rw [← htail]
        refine found f tail hfold.symm (ih tail.length ?_ tail rfl)
        rw [← hn, ← htail, List.length_append]
        omega
      · refine other x rest h (ih rest.length ?_ rest rfl)
        rw [← hn, List.length_cons]
        omega

/-! ## What is kept -/

theorem snd_eq_none_of_mem_inserted {s : Str} (h : x ∈ inserted s) : x.2 = none := by
  obtain ⟨c, -, rfl⟩ := List.mem_map.mp h
  rfl

/-- What comes from the earlier text after a replacement was there before it. -/
theorem mem_of_mem_pass (hold : old ≠ []) (hx : x.2 ≠ none) : ∀ m, x ∈ pass old new m → x ∈ m := by
  refine induction_on_found hold (fun h => h) (fun f rest hf ih h => ?_) fun y rest hy ih h => ?_
  · rw [pass_found hold hf] at h
    rcases List.mem_append.mp h with h | h
    · exact absurd (snd_eq_none_of_mem_inserted h) hx
    · exact List.mem_append_right _ (ih h)
  · rw [pass_other hy] at h
    rcases List.mem_cons.mp h with rfl | h
    · exact List.mem_cons_self ..
    · exact List.mem_cons_of_mem _ (ih h)

theorem places_append (m m' : Marked) : places (m ++ m') = places m ++ places m' := List.filterMap_append

theorem places_inserted (s : Str) : places (inserted s) = [] := by
  rw [places, List.filterMap_eq_nil_iff]
  exact fun x hx => snd_eq_none_of_mem_inserted hx

theorem places_sublist_cons (x : ℕ × Option ℕ) (m : Marked) : (places m).Sublist (places (x :: m)) :=
  (List.sublist_cons_self x m).filterMap Prod.snd

/-- No place is made. -/
theorem places_pass_sublist (hold : old ≠ []) : ∀ m, (places (pass old new m)).Sublist (places m) := by
  refine induction_on_found hold (List.Sublist.refl _) (fun f rest hf ih => ?_) fun y rest hy ih => ?_
  · rw [pass_found hold hf, places_append, places_inserted, List.nil_append, places_append]
    exact ih.trans (List.sublist_append_right _ _)
  · rw [pass_other hy]
    change (places ([y] ++ pass old new rest)).Sublist (places ([y] ++ rest))
    rw [places_append, places_append]
    exact ih.append_left _

theorem mem_places (h : x ∈ m) {p : ℕ} (hp : x.2 = some p) : p ∈ places m :=
  List.mem_filterMap.mpr ⟨x, h, hp⟩

/-- A character stands once in a text whose places are distinct. -/
theorem notMem_of_nodup (h : (places (f ++ rest)).Nodup) (hx : x.2 ≠ none) (hf : x ∈ f) : x ∉ rest := by
  intro hrest
  obtain ⟨p, hp⟩ := Option.ne_none_iff_exists'.mp hx
  rw [places_append] at h
  exact (List.nodup_append.mp h).2.2 p (mem_places hf hp) p (mem_places hrest hp) rfl

theorem ne_head_of_nodup {y : ℕ × Option ℕ} (h : (places (y :: rest)).Nodup) (hx : x.2 ≠ none)
    (hrest : x ∈ rest) : x ≠ y := by
  have hsplit : (places ([y] ++ rest)).Nodup := h
  exact fun he => notMem_of_nodup hsplit hx (List.mem_singleton.mpr he) hrest

/-- What is found is lost. -/
theorem notMem_pass_of_mem_found (hold : old ≠ []) (hf : text f = old)
    (hnodup : (places (f ++ rest)).Nodup) (hx : x.2 ≠ none) (hmem : x ∈ f) :
    x ∉ pass old new (f ++ rest) := by
  rw [pass_found hold hf, List.mem_append, not_or]
  exact ⟨fun h => hx (snd_eq_none_of_mem_inserted h),
    fun h => notMem_of_nodup hnodup hx hmem (mem_of_mem_pass hold hx rest h)⟩

/-! ## Characters side by side -/

theorem prefix_of_prefix_pass (hold : old ≠ []) (hnew : new ≠ []) :
    ∀ m w, Placed w → w <+: pass old new m → w <+: m := by
  refine induction_on_found hold (fun w _ h => h) (fun f rest hf ih w hw h => ?_) fun y rest hy ih w hw h => ?_
  · rw [pass_found hold hf] at h
    rcases w with _ | ⟨x, tail⟩
    · exact List.nil_prefix
    · obtain ⟨c, cs, rfl⟩ := List.exists_cons_of_ne_nil hnew
      exact absurd (congrArg Prod.snd (List.cons_prefix_cons.mp h).1) (hw x (List.mem_cons_self ..))
  · rw [pass_other hy] at h
    rcases w with _ | ⟨x, tail⟩
    · exact List.nil_prefix
    · obtain ⟨rfl, htail⟩ := List.cons_prefix_cons.mp h
      exact List.cons_prefix_cons.mpr ⟨rfl, ih tail (fun z hz => hw z (List.mem_cons_of_mem _ hz)) htail⟩

/-- **Characters of the first text that stand side by side after a replacement stood side by side
before it.** -/
theorem infix_of_infix_pass (hold : old ≠ []) (hnew : new ≠ []) (hw : Placed w) :
    ∀ m, w <:+: pass old new m → w <:+: m := by
  refine induction_on_found hold (fun h => h) (fun f rest hf ih h => ?_) fun y rest hy ih h => ?_
  · rw [pass_found hold hf] at h
    rcases List.infix_append_iff_ne_nil.mp h with h | h | ⟨l, l', hl, -, rfl, hsuffix, -⟩
    · rcases w with _ | ⟨x, tail⟩
      · exact List.nil_infix
      · have hx : x ∈ inserted new := h.subset (List.mem_cons_self ..)
        exact absurd (snd_eq_none_of_mem_inserted hx) (hw x (List.mem_cons_self ..))
    · exact (ih h).trans (List.suffix_append f rest).isInfix
    · obtain ⟨x, hx⟩ := List.exists_mem_of_ne_nil l hl
      exact absurd (snd_eq_none_of_mem_inserted (hsuffix.subset hx)) (hw x (List.mem_append_left _ hx))
  · rw [pass_other hy] at h
    rcases List.infix_cons_iff.mp h with h | h
    · rw [← pass_other hy] at h
      exact (prefix_of_prefix_pass hold hnew _ w hw h).isInfix
    · exact List.infix_cons (ih h)

theorem prefix_pass_of_kept (hold : old ≠ []) :
    ∀ m w, (places m).Nodup → Placed w → w <+: m → Kept w (pass old new m) → w <+: pass old new m := by
  refine induction_on_found hold (fun w _ _ h _ => h) (fun f rest hf ih w hnodup hw h hkept => ?_)
    fun y rest hy ih w hnodup hw h hkept => ?_
  · rcases w with _ | ⟨x, tail⟩
    · exact List.nil_prefix
    · rcases f with _ | ⟨z, zs⟩
      · exact absurd hf.symm hold
      · obtain ⟨rfl, -⟩ := List.cons_prefix_cons.mp h
        exact absurd (hkept x (List.mem_cons_self ..))
          (notMem_pass_of_mem_found hold hf hnodup (hw x (List.mem_cons_self ..)) (List.mem_cons_self ..))
  · rw [pass_other hy] at hkept ⊢
    rcases w with _ | ⟨x, tail⟩
    · exact List.nil_prefix
    · obtain ⟨rfl, htail⟩ := List.cons_prefix_cons.mp h
      refine List.cons_prefix_cons.mpr ⟨rfl, ih tail (hnodup.sublist (places_sublist_cons x rest))
        (fun z hz => hw z (List.mem_cons_of_mem _ hz)) htail fun z hz => ?_⟩
      have hplaced : z.2 ≠ none := hw z (List.mem_cons_of_mem _ hz)
      exact (List.mem_cons.mp (hkept z (List.mem_cons_of_mem _ hz))).resolve_left
        (ne_head_of_nodup hnodup hplaced (htail.subset hz))

/-- **Characters side by side that are all kept stay side by side.** -/
theorem infix_pass_of_kept (hold : old ≠ []) (hw : Placed w) :
    ∀ m, (places m).Nodup → w <:+: m → Kept w (pass old new m) → w <:+: pass old new m := by
  refine induction_on_found hold (fun _ h _ => h) (fun f rest hf ih hnodup h hkept => ?_)
    fun y rest hy ih hnodup h hkept => ?_
  · have hlost : ∀ x ∈ w, x ∉ f := fun x hx hxf =>
      notMem_pass_of_mem_found hold hf hnodup (hw x hx) hxf (hkept x hx)
    rw [pass_found hold hf] at hkept ⊢
    have hrest : Kept w (pass old new rest) := fun x hx =>
      (List.mem_append.mp (hkept x hx)).resolve_left fun h => hw x hx (snd_eq_none_of_mem_inserted h)
    rw [places_append] at hnodup
    rcases List.infix_append_iff_ne_nil.mp h with h | h | ⟨l, l', hl, -, rfl, hsuffix, -⟩
    · rcases w with _ | ⟨x, tail⟩
      · exact List.nil_infix
      · exact absurd (h.subset (List.mem_cons_self ..)) (hlost x (List.mem_cons_self ..))
    · exact (ih (List.nodup_append.mp hnodup).2.1 h hrest).trans (List.suffix_append _ _).isInfix
    · obtain ⟨x, hx⟩ := List.exists_mem_of_ne_nil l hl
      exact absurd (hsuffix.subset hx) (hlost x (List.mem_append_left _ hx))
  · rcases List.infix_cons_iff.mp h with h | h
    · exact (prefix_pass_of_kept hold _ w hnodup hw h hkept).isInfix
    · rw [pass_other hy] at hkept ⊢
      refine List.infix_cons (ih (hnodup.sublist (places_sublist_cons y rest)) h fun z hz => ?_)
      exact (List.mem_cons.mp (hkept z hz)).resolve_left (ne_head_of_nodup hnodup (hw z hz) (h.subset hz))

/-- **What spells the replaced part is not kept as a whole.** -/
theorem exists_lost (hold : old ≠ []) (hw : Placed w) (hspell : text w = old) :
    ∀ m, (places m).Nodup → w <:+: m → ∃ x ∈ w, x ∉ pass old new m := by
  have hne : w ≠ [] := by
    rintro rfl
    exact hold hspell.symm
  refine induction_on_found hold (fun _ h => absurd (List.infix_nil.mp h) hne) (fun f rest hf ih hnodup h => ?_)
    fun y rest hy ih hnodup h => ?_
  · rcases List.infix_append_iff_ne_nil.mp h with h | h | ⟨l, l', hl, -, rfl, hsuffix, -⟩
    · obtain ⟨x, hx⟩ := List.exists_mem_of_ne_nil w hne
      exact ⟨x, hx, notMem_pass_of_mem_found hold hf hnodup (hw x hx) (h.subset hx)⟩
    · rw [places_append] at hnodup
      obtain ⟨x, hx, hlost⟩ := ih (List.nodup_append.mp hnodup).2.1 h
      refine ⟨x, hx, ?_⟩
      rw [pass_found hold hf, List.mem_append, not_or]
      exact ⟨fun h => hw x hx (snd_eq_none_of_mem_inserted h), hlost⟩
    · obtain ⟨x, hx⟩ := List.exists_mem_of_ne_nil l hl
      exact ⟨x, List.mem_append_left _ hx, notMem_pass_of_mem_found hold hf hnodup
        (hw x (List.mem_append_left _ hx)) (hsuffix.subset hx)⟩
  · rcases List.infix_cons_iff.mp h with h | h
    · refine absurd ?_ hy
      rw [← hspell]
      exact h.map Prod.fst
    · obtain ⟨x, hx, hlost⟩ := ih (hnodup.sublist (places_sublist_cons y rest)) h
      refine ⟨x, hx, ?_⟩
      rw [pass_other hy, List.mem_cons, not_or]
      exact ⟨ne_head_of_nodup hnodup (hw x hx) (h.subset hx), hlost⟩

/-! ## The first text -/

/-- The `n` characters of a text from a position. -/
def characters (s : Str) (i n : ℕ) : Marked := ((number s).drop i).take n

theorem placed_number (s : Str) : Placed (number s) := by
  intro x hx
  obtain ⟨e, -, rfl⟩ := List.mem_map.mp hx
  exact Option.some_ne_none e.2

/-- The places of a text are distinct. -/
theorem nodup_number (s : Str) : (places (number s)).Nodup := by
  have hplaces : places (number s) = s.zipIdx.map Prod.snd := by
    rw [places, number, List.filterMap_map]
    exact congrFun List.filterMap_eq_map' s.zipIdx
  rw [hplaces, List.zipIdx_map_snd]
  exact List.nodup_range'

theorem infix_characters (s : Str) (i n : ℕ) : characters s i n <:+: number s :=
  (List.take_prefix n _).isInfix.trans (List.drop_suffix i _).isInfix

theorem placed_characters (s : Str) (i n : ℕ) : Placed (characters s i n) :=
  fun x hx => placed_number s x ((infix_characters s i n).subset hx)

/-- The characters of an occurrence spell it. -/
theorem text_characters {s : Str} {i : ℕ} (h : old <+: s.drop i) : text (characters s i old.length) = old := by
  have htext : text (characters s i old.length) = ((text (number s)).drop i).take old.length := by
    rw [characters, text, List.map_take, List.map_drop, text]
  rw [htext, text_number]
  exact (List.prefix_iff_eq_take.mp h).symm

/-! ## Several replacements in turn -/

/-- One replacement, or none for an empty part. -/
def step (new : Str) (m : Marked) (old : Str) : Marked := if old = [] then m else pass old new m

/-- The replacements of several parts by the same text, in their order. -/
def run (new : Str) (olds : List Str) (m : Marked) : Marked := olds.foldl (step new) m

/-- Some occurrence of the part has a character that was put in. -/
def Joined (old : Str) (m : Marked) : Prop := ∃ w, w <:+: m ∧ text w = old ∧ ¬ Placed w

variable {olds : List Str}

theorem text_run : ∀ (olds : List Str) (m : Marked), text (run new olds m) =
    olds.foldl (fun t old => if old = [] then t else replace t old new) (text m)
  | [], m => rfl
  | old :: olds, m => by
    have hstep : text (step new m old) = if old = [] then text m else replace (text m) old new := by
      unfold step
      split_ifs with h
      · rfl
      · exact text_pass m
    rw [List.foldl_cons, ← hstep]
    exact text_run olds (step new m old)

theorem run_append (olds olds' : List Str) (m : Marked) :
    run new (olds ++ olds') m = run new olds' (run new olds m) := List.foldl_append

theorem run_concat (olds : List Str) (m : Marked) (hold : old ≠ []) :
    run new (olds ++ [old]) m = pass old new (run new olds m) := by
  rw [run_append]
  exact if_neg hold

/-- What a replacement preserves the replacements in turn preserve. -/
theorem run_induction {P : Marked → Prop} (hpass : ∀ old m, old ≠ [] → P m → P (pass old new m)) :
    ∀ (olds : List Str) {m : Marked}, P m → P (run new olds m)
  | [], _, h => h
  | old :: olds, m, h => by
    refine run_induction hpass olds (m := step new m old) ?_
    unfold step
    split_ifs with hold
    · exact h
    · exact hpass old m hold h

theorem nodup_run (olds : List Str) (h : (places m).Nodup) : (places (run new olds m)).Nodup :=
  run_induction (P := fun m => (places m).Nodup)
    (fun _ m hold h => h.sublist (places_pass_sublist hold m)) olds h

theorem mem_of_mem_run (hx : x.2 ≠ none) (olds : List Str) (h : x ∈ run new olds m) : x ∈ m := by
  by_contra hm
  exact run_induction (P := fun m => x ∉ m) (fun _ m hold hm h => hm (mem_of_mem_pass hold hx m h)) olds hm h

theorem infix_of_infix_run (hnew : new ≠ []) (hw : Placed w) (olds : List Str)
    (h : w <:+: run new olds m) : w <:+: m := by
  by_contra hm
  exact run_induction (P := fun m => ¬ w <:+: m)
    (fun _ m hold hm h => hm (infix_of_infix_pass hold hnew hw m h)) olds hm h

theorem infix_run_of_kept (hw : Placed w) : ∀ (olds : List Str) {m : Marked}, (places m).Nodup → w <:+: m →
    Kept w (run new olds m) → w <:+: run new olds m
  | [], _, _, h, _ => h
  | old :: olds, m, hnodup, h, hkept => by
    by_cases hold : old = []
    · have hrun : run new (old :: olds) m = run new olds m := by
        change run new olds (step new m old) = run new olds m
        rw [step, if_pos hold]
      rw [hrun] at hkept ⊢
      exact infix_run_of_kept hw olds hnodup h hkept
    · have hrun : run new (old :: olds) m = run new olds (pass old new m) := by
        change run new olds (step new m old) = run new olds (pass old new m)
        rw [step, if_neg hold]
      rw [hrun] at hkept ⊢
      have hone : Kept w (pass old new m) := fun x hx => mem_of_mem_run (hw x hx) olds (hkept x hx)
      exact infix_run_of_kept hw olds (hnodup.sublist (places_pass_sublist hold m))
        (infix_pass_of_kept hold hw m hnodup h hone) hkept

/-- **Once its part has had its turn, an occurrence is not whole.** -/
theorem not_kept_run (hw : Placed w) (hspell : text w = old) (hold : old ≠ []) (hmem : old ∈ olds)
    (hnodup : (places m).Nodup) (h : w <:+: m) : ¬ Kept w (run new olds m) := by
  intro hkept
  obtain ⟨before, after, rfl⟩ := List.append_of_mem hmem
  rw [← List.singleton_append, ← List.append_assoc, run_append, run_concat before m hold] at hkept
  have hturn : Kept w (pass old new (run new before m)) := fun x hx =>
    mem_of_mem_run (hw x hx) after (hkept x hx)
  have hbefore : Kept w (run new before m) := fun x hx => mem_of_mem_pass hold (hw x hx) _ (hturn x hx)
  obtain ⟨x, hx, hlost⟩ := exists_lost hold hw hspell (run new before m) (nodup_run before hnodup)
    (infix_run_of_kept hw before hnodup h hbefore)
  exact hlost (hturn x hx)

/-- **A part that was replaced is in the text only where it is read with a character that was
put in.** -/
theorem infix_text_run_iff (hnew : new ≠ []) (hold : old ≠ []) (hmem : old ∈ olds)
    (hnodup : (places m).Nodup) : old <:+: text (run new olds m) ↔ Joined old (run new olds m) := by
  constructor
  · intro h
    obtain ⟨w, hw, hspell⟩ := List.infix_map_iff.mp h
    refine ⟨w, hw, hspell.symm, fun hplaced => ?_⟩
    exact not_kept_run hplaced hspell.symm hold hmem hnodup
      (infix_of_infix_run hnew hplaced olds hw) hw.subset
  · rintro ⟨w, hw, rfl, -⟩
    exact hw.map Prod.fst

/-! ## What the inserted texts stand for -/

variable {src : Marked}

/-- A text that was put in, where `f` was. -/
inductive StandsFor (new : Str) (olds : List Str) : Marked → Marked → Prop
  | nil : StandsFor new olds [] []
  | char {x : ℕ × Option ℕ} {m src : Marked} : x.2 ≠ none → StandsFor new olds m src →
      StandsFor new olds (x :: m) (x :: src)
  | put {f m src : Marked} : text f ∈ olds → StandsFor new olds m src →
      StandsFor new olds (inserted new ++ m) (f ++ src)

theorem StandsFor.of_placed : ∀ {m : Marked}, Placed m → StandsFor new olds m m
  | [], _ => .nil
  | x :: _, h => .char (h x (List.mem_cons_self ..)) (of_placed fun y hy => h y (List.mem_cons_of_mem _ hy))

/-- The characters of the first text at the front are at the front of what it stands for. -/
theorem StandsFor.split (hnew : new ≠ []) (hf : Placed f) (h : StandsFor new olds (f ++ rest) src) :
    ∃ tail, src = f ++ tail ∧ StandsFor new olds rest tail := by
  induction f generalizing src with
  | nil => exact ⟨src, rfl, h⟩
  | cons x f ih =>
    generalize hm : x :: f ++ rest = m at h
    cases h with
    | nil => exact absurd hm (List.cons_ne_nil x _)
    | char hx h =>
      obtain ⟨rfl, rfl⟩ := List.cons.inj hm
      obtain ⟨tail, rfl, htail⟩ := ih (fun y hy => hf y (List.mem_cons_of_mem _ hy)) h
      exact ⟨tail, rfl, htail⟩
    | put =>
      obtain ⟨c, cs, rfl⟩ := List.exists_cons_of_ne_nil hnew
      obtain ⟨rfl, -⟩ := List.cons.inj hm
      exact absurd rfl (hf _ (List.mem_cons_self ..))

/-- The part is not read with a character that was put in: a replacement leaves these where they are. -/
theorem pass_inserted (hold : old ≠ []) : ∀ s : Str, ¬ Joined old (inserted s ++ m) →
    pass old new (inserted s ++ m) = inserted s ++ pass old new m
  | [], _ => rfl
  | c :: s, h => by
    have hother : ¬ old <+: text ((c, none) :: (inserted s ++ m)) := by
      intro hprefix
      obtain ⟨w, hw, hspell⟩ := List.prefix_map_iff.mp hprefix
      rcases w with _ | ⟨y, w⟩
      · exact hold hspell
      · obtain ⟨rfl, -⟩ := List.cons_prefix_cons.mp hw
        exact h ⟨_, hw.isInfix, hspell.symm, fun hplaced => hplaced _ (List.mem_cons_self ..) rfl⟩
    have hrest : ¬ Joined old (inserted s ++ m) := fun ⟨w, hw, hspell, hplaced⟩ =>
      h ⟨w, hw.trans (List.suffix_cons _ _).isInfix, hspell, hplaced⟩
    change pass old new ((c, none) :: (inserted s ++ m)) = (c, none) :: (inserted s ++ pass old new m)
    rw [pass_other hother, pass_inserted hold s hrest]

/-- **A part that is not read with a character that was put in is replaced in what the text stands for.** -/
theorem StandsFor.pass (hnew : new ≠ []) (hold : old ≠ []) (hmem : old ∈ olds) (h : StandsFor new olds m src)
    (hapart : ¬ Joined old m) : StandsFor new olds (Provenance.pass old new m) src := by
  induction hn : m.length using Nat.strong_induction_on generalizing m src with
  | _ n ih =>
    have hsub : ∀ {m' : Marked}, m' <:+ m → ¬ Joined old m' := fun hm' ⟨w, hw, hspell, hplaced⟩ =>
      hapart ⟨w, hw.trans hm'.isInfix, hspell, hplaced⟩
    by_cases hfound : old <+: text m
    · -- an occurrence: its characters all come from the first text
      obtain ⟨f, ⟨rest, rfl⟩, hf⟩ := List.prefix_map_iff.mp hfound
      have hplaced : Placed f := by
        by_contra hjoined
        exact hapart ⟨f, (List.prefix_append f rest).isInfix, hf.symm, hjoined⟩
      obtain ⟨tail, rfl, htail⟩ := h.split hnew hplaced
      have hpos : 0 < f.length := by
        rw [← List.length_map (f := Prod.fst), ← hf]
        exact List.length_pos_iff.mpr hold
      have hreplaced : text f ∈ olds := by
        change f.map Prod.fst ∈ olds
        rwa [← hf]
      rw [pass_found hold hf.symm]
      refine .put hreplaced (ih rest.length ?_ htail (hsub (List.suffix_append f rest)) rfl)
      rw [← hn, List.length_append]
      omega
    · cases h with
      | nil => exact .nil
      | char hx h =>
        rw [pass_other hfound]
        exact .char hx (ih _ (hn ▸ Nat.lt_succ_self _) h (hsub (List.suffix_cons _ _)) rfl)
      | @put f m' _ hf h =>
        have hpos : 0 < (inserted new).length := by
          rw [inserted, List.length_map]
          exact List.length_pos_iff.mpr hnew
        rw [pass_inserted hold new hapart]
        refine .put hf (ih m'.length ?_ h (hsub (List.suffix_append _ _)) rfl)
        rw [← hn, List.length_append]
        omega

/-- What is read of a text that was put in, at an end of a part, and what was there before it. -/
inductive AtEnd (olds : List Str) : Str → Str → Prop
  | outside : AtEnd olds [] []
  | inside {read : Str} {replaced : Str} : read ≠ [] → replaced ∈ olds → AtEnd olds read replaced

/-- The first text has, between parts that are replaced, what together with an end and a beginning of
the text that is put in spells `part`. -/
def Exposed (new : Str) (olds : List Str) (part : Str) (s : Str) : Prop :=
  ∃ e mid b left right, part = e ++ mid ++ b ∧ e <:+ new ∧ b <+: new ∧ (e ≠ [] ∨ b ≠ []) ∧
    AtEnd olds e left ∧ AtEnd olds b right ∧ left ++ mid ++ right <:+: s

/-- A part that neither begins with an end of the text that is put in nor ends with a beginning of it. -/
theorem not_exposed_of_ends {part s : Str} (hfront : ∀ e, e <:+ new → e <+: part → e = [])
    (hback : ∀ b, b <+: new → b <:+ part → b = []) : ¬ Exposed new olds part s := by
  rintro ⟨e, mid, b, -, -, rfl, he, hb, hne, -, -, -⟩
  rcases hne with hne | hne
  · exact hne (hfront e he ⟨mid ++ b, (List.append_assoc ..).symm⟩)
  · exact hne (hback b hb (List.suffix_append _ _))

/-- What is read from the front. -/
theorem StandsFor.front (h : StandsFor new olds m src) : ∀ {w : Marked}, w <+: m → ¬ new <:+: text w →
    ∃ mid b right, text w = mid ++ b ∧ b <+: new ∧ (¬ Placed w → b ≠ []) ∧ AtEnd olds b right ∧
      mid ++ right <+: text src := by
  have hempty : ∀ {s : Str}, ∃ mid b right, text [] = mid ++ b ∧ b <+: new ∧ (¬ Placed [] → b ≠ []) ∧
      AtEnd olds b right ∧ mid ++ right <+: s :=
    ⟨[], [], [], rfl, List.nil_prefix, fun h => absurd (fun _ hx => absurd hx List.not_mem_nil) h, .outside,
      List.nil_prefix⟩
  induction h with
  | nil =>
    intro w hw _
    rw [List.prefix_nil.mp hw]
    exact hempty
  | @char x m src hx _ ih =>
    intro w hw hmarker
    rcases w with _ | ⟨y, w⟩
    · exact hempty
    · obtain ⟨rfl, htail⟩ := List.cons_prefix_cons.mp hw
      obtain ⟨mid, b, right, hspell, hb, hplaced, hend, hsrc⟩ := ih htail fun hwithin =>
        hmarker (hwithin.trans (List.suffix_cons _ _).isInfix)
      refine ⟨y.1 :: mid, b, right, ?_, hb, fun hj => hplaced fun hall => hj ?_, hend, ?_⟩
      · exact congrArg (y.1 :: ·) hspell
      · exact List.forall_mem_cons.mpr ⟨hx, hall⟩
      · exact List.cons_prefix_cons.mpr ⟨rfl, hsrc⟩
  | @put f m src hf _ _ =>
    intro w hw hmarker
    rcases List.prefix_or_prefix_of_prefix hw (List.prefix_append (inserted new) m) with hinside | hwhole
    · rcases w with _ | ⟨y, w⟩
      · exact hempty
      · have hread : text (y :: w) <+: new := by
          have hmap : text (y :: w) <+: text (inserted new) := hinside.map Prod.fst
          rwa [text_inserted] at hmap
        refine ⟨[], text (y :: w), text f, rfl, hread, fun _ => List.cons_ne_nil _ _,
          .inside (List.cons_ne_nil _ _) hf, ?_⟩
        rw [List.nil_append, text_append]
        exact List.prefix_append _ _
    · -- the whole of the text that was put in would be in the part
      have hmap : text (inserted new) <+: text w := hwhole.map Prod.fst
      rw [text_inserted] at hmap
      exact absurd hmap.isInfix hmarker

/-- **A part that is read with characters that were put in is exposed in the first text.** -/
theorem StandsFor.exposed (h : StandsFor new olds m src) {part : Str} (hmarker : ¬ new <:+: part)
    (hpart : ¬ part <:+: new) (hjoined : Joined part m) : Exposed new olds part (text src) := by
  obtain ⟨w, hw, rfl, hplaced⟩ := hjoined
  have hfront : ∀ {m src : Marked}, StandsFor new olds m src → w <+: m → Exposed new olds (text w) (text src) := by
    intro m src h hw
    obtain ⟨mid, b, right, hspell, hb, hne, hend, hsrc⟩ := h.front hw hmarker
    exact ⟨[], mid, b, [], right, hspell, List.nil_suffix, hb, Or.inr (hne hplaced), .outside, hend, hsrc.isInfix⟩
  have hlater : ∀ {s s' : Str}, s <:+ s' → Exposed new olds (text w) s → Exposed new olds (text w) s' :=
    fun hs ⟨e, mid, b, left, right, hspell, he, hb, hne, hleft, hright, hwithin⟩ =>
      ⟨e, mid, b, left, right, hspell, he, hb, hne, hleft, hright, hwithin.trans hs.isInfix⟩
  induction h with
  | nil =>
    rw [List.infix_nil.mp hw] at hplaced
    exact absurd (fun _ hx => absurd hx List.not_mem_nil) hplaced
  | @char x m src hx h ih =>
    rcases List.infix_cons_iff.mp hw with hw | hw
    · exact hfront (.char hx h) hw
    · exact hlater (List.suffix_cons x.1 (text src)) (ih hw)
  | @put f m src hf h ih =>
    rw [text_append]
    rcases List.infix_append_iff_ne_nil.mp hw with hw | hw | ⟨l, l', hl, -, rfl, hsuffix, hprefix⟩
    · have hmap : text w <:+: text (inserted new) := hw.map Prod.fst
      rw [text_inserted] at hmap
      exact absurd hmap hpart
    · exact hlater (List.suffix_append _ _) (ih hw)
    · -- it begins within the text that was put in
      have he : text l <:+ new := by
        have hmap : text l <:+ text (inserted new) := hsuffix.map Prod.fst
        rwa [text_inserted] at hmap
      have hne : text l ≠ [] := fun hempty => hl (List.map_eq_nil_iff.mp hempty)
      rw [text_append] at hmarker ⊢
      obtain ⟨mid, b, right, hspell, hb, -, hend, hsrc⟩ := h.front hprefix fun hwithin =>
        hmarker (hwithin.trans (List.suffix_append _ _).isInfix)
      refine ⟨text l, mid, b, text f, right, ?_, he, hb, Or.inl hne, .inside hne hf, hend, ?_⟩
      · rw [hspell, List.append_assoc]
      · rw [List.append_assoc]
        exact (List.prefix_append_right_inj (text f)).mpr hsrc |>.isInfix

/-- **As long as no part is exposed, the run's text stands for the first one.** -/
theorem standsFor_run (hnew : new ≠ []) (hall : ∀ part ∈ olds, part ≠ [] ∧ ¬ new <:+: part ∧ ¬ part <:+: new ∧
    ¬ Exposed new olds part (text src)) (hsrc : Placed src) :
    ∀ turns : List Str, turns ⊆ olds → StandsFor new olds (run new turns src) src := by
  intro turns
  induction turns using List.reverseRecOn with
  | nil => exact fun _ => .of_placed hsrc
  | append_singleton turns part ih =>
    intro hturns
    have hpart : part ∈ olds := hturns (List.mem_append_right _ (List.mem_singleton_self part))
    have hstands := ih fun t ht => hturns (List.mem_append_left _ ht)
    obtain ⟨hne, hmarker, hinside, hexposed⟩ := hall part hpart
    rw [run_concat turns src hne]
    exact hstands.pass hnew hne hpart fun hjoined => hexposed (hstands.exposed hmarker hinside hjoined)

/-- What a replacement loses is a character of an occurrence. -/
theorem exists_found_of_lost (hold : old ≠ []) : ∀ m, x ∈ m → x ∉ pass old new m →
    ∃ f, f <:+: m ∧ text f = old ∧ x ∈ f := by
  refine induction_on_found hold (fun h => absurd h List.not_mem_nil) (fun f rest hf ih hmem hlost => ?_)
    fun y rest hy ih hmem hlost => ?_
  · rw [pass_found hold hf, List.mem_append, not_or] at hlost
    rcases List.mem_append.mp hmem with hmem | hmem
    · exact ⟨f, (List.prefix_append f rest).isInfix, hf, hmem⟩
    · obtain ⟨g, hg, hspell, hx⟩ := ih hmem hlost.2
      exact ⟨g, hg.trans (List.suffix_append f rest).isInfix, hspell, hx⟩
  · rw [pass_other hy, List.mem_cons, not_or] at hlost
    obtain ⟨g, hg, hspell, hx⟩ := ih ((List.mem_cons.mp hmem).resolve_left hlost.1) hlost.2
    exact ⟨g, List.infix_cons hg, hspell, hx⟩

/-- The character is one of the `n` from position `i` on. -/
theorem mem_characters {s : Str} {i n : ℕ} (h : x ∈ characters s i n) : ∃ p, x.2 = some p ∧ i ≤ p ∧ p < i + n := by
  obtain ⟨k, hk, rfl⟩ := List.mem_iff_getElem.mp h
  simp only [characters, List.length_take, List.length_drop] at hk
  refine ⟨i + k, ?_, by omega, by omega⟩
  simp only [characters, List.getElem_take, List.getElem_drop, number, List.getElem_map, List.getElem_zipIdx,
    Nat.zero_add]

/-- Characters side by side in the first text are those of an occurrence. -/
theorem exists_characters_of_infix {s : Str} (h : f <:+: number s) :
    ∃ i, f = characters s i f.length ∧ text f <+: s.drop i := by
  obtain ⟨l, r, hsplit⟩ := h
  refine ⟨l.length, ?_, ?_⟩
  · rw [characters, ← hsplit, List.append_assoc, List.drop_left, List.take_left]
  · have htext := congrArg text hsplit
    rw [text_number, text_append, text_append] at htext
    rw [← htext, text, List.append_assoc, List.drop_left' (by rw [text, List.length_map])]
    exact List.prefix_append _ _

end AI2Apps.Provenance
