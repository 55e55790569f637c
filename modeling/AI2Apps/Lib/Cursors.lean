import Mathlib.Data.List.Basic
import Mathlib.Data.List.Infix
import Mathlib.Data.List.Lattice
import Mathlib.Order.Basic
import Mathlib.Order.Defs.LinearOrder
import Mathlib.Order.Lattice

/-!
# Reading an ordered log through a cursor

A log is in the order of its keys, no two entries with one key.  A cursor divides it
into what was read and what is still to come, and moves to the key of an entry that is
read.

* `upTo`, `beyond`: the two parts.
* `upTo_append_beyond`: they are the log.
* `upTo_advance`, `beyond_advance`: the cursor moves over the first entry to come.
-/

namespace AI2Apps.Cursors

variable {α β : Type} [LinearOrder β] {key : α → β} {c d : β} {l m : List α} {a : α}

/-- The keys increase. -/
def Ordered (key : α → β) (l : List α) : Prop := l.Pairwise fun a b => key a < key b

/-- What a cursor has passed. -/
def upTo (key : α → β) (c : β) (l : List α) : List α := l.filter fun a => key a ≤ c

/-- What is to come after a cursor. -/
def beyond (key : α → β) (c : β) (l : List α) : List α := l.filter fun a => c < key a

theorem Ordered.filter (h : Ordered key l) (p : α → Bool) : Ordered key (l.filter p) :=
  h.sublist List.filter_sublist

/-- A log is extended by larger keys. -/
theorem Ordered.append (h : Ordered key l) (hm : Ordered key m)
    (hlt : ∀ a ∈ l, ∀ b ∈ m, key a < key b) : Ordered key (l ++ m) :=
  List.pairwise_append.mpr ⟨h, hm, hlt⟩

theorem upTo_eq_nil_iff : upTo key c l = [] ↔ ∀ a ∈ l, c < key a := by
  simp only [upTo, List.filter_eq_nil_iff, decide_eq_true_eq, not_le]

theorem upTo_eq_self (h : ∀ a ∈ l, key a ≤ c) : upTo key c l = l :=
  List.filter_eq_self.mpr fun a ha => decide_eq_true (h a ha)

theorem beyond_eq_self (h : ∀ a ∈ l, c < key a) : beyond key c l = l :=
  List.filter_eq_self.mpr fun a ha => decide_eq_true (h a ha)

theorem upTo_cons_of_le (h : key a ≤ c) : upTo key c (a :: l) = a :: upTo key c l :=
  List.filter_cons_of_pos (decide_eq_true h)

theorem beyond_cons_of_le (h : key a ≤ c) : beyond key c (a :: l) = beyond key c l :=
  List.filter_cons_of_neg (by simpa using h)

/-- **A cursor divides the log.** -/
theorem upTo_append_beyond (h : Ordered key l) : upTo key c l ++ beyond key c l = l := by
  induction l with
  | nil => rfl
  | cons a l ih =>
    rw [Ordered, List.pairwise_cons] at h
    by_cases hc : key a ≤ c
    · rw [upTo_cons_of_le hc, beyond_cons_of_le hc, List.cons_append, ih h.2]
    · have hall : ∀ b ∈ a :: l, c < key b := by
        rw [List.forall_mem_cons]
        exact ⟨not_le.mp hc, fun b hb => (not_le.mp hc).trans (h.1 b hb)⟩
      rw [upTo_eq_nil_iff.mpr hall, beyond_eq_self hall, List.nil_append]

theorem upTo_prefix (h : Ordered key l) (c : β) : upTo key c l <+: l :=
  ⟨beyond key c l, upTo_append_beyond h⟩

section Advance

variable (h : Ordered key l) (hb : beyond key c l = a :: m)

include hb in
theorem lt_of_beyond : c < key a := by
  have hmem : a ∈ beyond key c l := by
    rw [hb]
    exact List.mem_cons_self ..
  exact of_decide_eq_true (List.mem_filter.mp hmem).2

include h hb

/-- **The cursor moves over the first entry to come.** -/
theorem upTo_advance : upTo key (key a) l = upTo key c l ++ [a] := by
  have hlt := lt_of_beyond hb
  have hsplit := upTo_append_beyond (c := c) h
  have hcome : Ordered key (a :: m) := hb ▸ h.filter _
  rw [Ordered, List.pairwise_cons] at hcome
  have hpassed : upTo key (key a) (upTo key c l) = upTo key c l :=
    upTo_eq_self fun b hmem => (of_decide_eq_true (List.mem_filter.mp hmem).2).trans hlt.le
  have hrest : upTo key (key a) m = [] := upTo_eq_nil_iff.mpr hcome.1
  calc upTo key (key a) l
      = upTo key (key a) (upTo key c l ++ a :: m) := by rw [← hb, hsplit]
    _ = upTo key (key a) (upTo key c l) ++ upTo key (key a) (a :: m) := List.filter_append ..
    _ = upTo key c l ++ [a] := by
      rw [hpassed, upTo_cons_of_le le_rfl, hrest]

theorem beyond_advance : beyond key (key a) l = m := by
  have hlt := lt_of_beyond hb
  have hcome : Ordered key (a :: m) := hb ▸ h.filter _
  rw [Ordered, List.pairwise_cons] at hcome
  calc beyond key (key a) l
      = (beyond key c l).filter fun b => key a < key b := by
        rw [beyond, beyond, List.filter_filter]
        refine List.filter_congr fun b _ => ?_
        rw [← Bool.decide_and, decide_eq_decide]
        exact ⟨fun hab => ⟨hab, hlt.trans hab⟩, fun hab => hab.1⟩
    _ = m := by
      rw [hb]
      exact (beyond_cons_of_le le_rfl).trans (beyond_eq_self hcome.1)

end Advance

end AI2Apps.Cursors
