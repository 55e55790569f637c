import Mathlib.Data.List.Perm.Basic
import Mathlib.Data.List.Sort

/-!
# The head of a stable descending sort

A list sorted by a key, largest first, with entries of equal key in their order.  Its head is
the first of the entries whose key is largest.

* `sortedDesc`: the sort.
* `head?_sortedDesc`: what the head is.
* `head?_sortedDesc_perm`: the heads of two orders of one list have the same key.
-/

namespace AI2Apps.StableSort

variable {α β : Type} [LinearOrder β] {key : α → β} {l l' : List α} {a m : α}

/-- `sorted(l, key=key, reverse=True)`. -/
def sortedDesc (key : α → β) (l : List α) : List α := l.insertionSort fun a b => key b ≤ key a

theorem sortedDesc_cons :
    sortedDesc key (a :: l) = (sortedDesc key l).orderedInsert (fun a b => key b ≤ key a) a := rfl

theorem perm_sortedDesc : (sortedDesc key l).Perm l := List.perm_insertionSort _ l

@[simp] theorem sortedDesc_eq_nil : sortedDesc key l = [] ↔ l = [] := by
  rw [← List.length_eq_zero_iff, perm_sortedDesc.length_eq, List.length_eq_zero_iff]

/-- The first entry whose key is largest. -/
def IsFirstMax (key : α → β) (l : List α) (m : α) : Prop :=
  ∃ xs ys, l = xs ++ m :: ys ∧ (∀ x ∈ xs, key x < key m) ∧ ∀ y ∈ ys, key y ≤ key m

theorem IsFirstMax.mem (h : IsFirstMax key l m) : m ∈ l := by
  obtain ⟨xs, ys, rfl, -, -⟩ := h
  exact List.mem_append_right _ (List.mem_cons_self ..)

theorem IsFirstMax.le (h : IsFirstMax key l m) (ha : a ∈ l) : key a ≤ key m := by
  obtain ⟨xs, ys, rfl, hx, hy⟩ := h
  rcases List.mem_append.mp ha with ha | ha
  · exact (hx a ha).le
  · rcases List.mem_cons.mp ha with rfl | ha
    · exact le_rfl
    · exact hy a ha

theorem isFirstMax_head?_sortedDesc :
    ∀ {l : List α} {m : α}, (sortedDesc key l).head? = some m → IsFirstMax key l m
  | [], m, h => by cases h
  | a :: l, m, h => by
    rw [sortedDesc_cons] at h
    rcases hs : sortedDesc key l with _ | ⟨b, s⟩
    · rw [hs, List.orderedInsert_nil, List.head?_cons, Option.some_inj] at h
      subst h
      obtain rfl := sortedDesc_eq_nil.mp hs
      exact ⟨[], [], rfl, by simp, by simp⟩
    · have hb : IsFirstMax key l b := isFirstMax_head?_sortedDesc (by rw [hs, List.head?_cons])
      rw [hs, List.orderedInsert_cons] at h
      split_ifs at h with hab
      · rw [List.head?_cons, Option.some_inj] at h
        subst h
        exact ⟨[], l, rfl, by simp, fun y hy => (hb.le hy).trans hab⟩
      · rw [List.head?_cons, Option.some_inj] at h
        subst h
        obtain ⟨xs, ys, rfl, hx, hy⟩ := hb
        refine ⟨a :: xs, ys, rfl, fun x hx' => ?_, hy⟩
        rcases List.mem_cons.mp hx' with rfl | hx'
        · exact not_le.mp hab
        · exact hx x hx'

/-- There is one first entry whose key is largest. -/
theorem IsFirstMax.unique {m' : α} (h : IsFirstMax key l m) (h' : IsFirstMax key l m') : m = m' := by
  obtain ⟨xs, ys, rfl, hx, hy⟩ := h
  obtain ⟨xs', ys', he, hx', hy'⟩ := h'
  rcases List.append_eq_append_iff.mp he with ⟨as, rfl, h⟩ | ⟨as, rfl, h⟩
  · rcases as with _ | ⟨b, as⟩
    · exact (List.cons.inj h).1
    · obtain ⟨rfl, rfl⟩ := List.cons.inj h
      have hlt := hx' m (by simp)
      exact absurd (hy m' (by simp)) (not_le.mpr hlt)
  · rcases as with _ | ⟨b, as⟩
    · exact (List.cons.inj h).1.symm
    · obtain ⟨rfl, rfl⟩ := List.cons.inj h
      have hlt := hx m' (by simp)
      exact absurd (hy' m (by simp)) (not_le.mpr hlt)

theorem head?_sortedDesc : (sortedDesc key l).head? = some m ↔ IsFirstMax key l m := by
  refine ⟨isFirstMax_head?_sortedDesc, fun h => ?_⟩
  rcases hs : (sortedDesc key l).head? with _ | m'
  · obtain rfl := sortedDesc_eq_nil.mp (List.head?_eq_none_iff.mp hs)
    exact absurd h.mem List.not_mem_nil
  · rw [h.unique (isFirstMax_head?_sortedDesc hs)]

/-- Two orders of one list have heads of one key. -/
theorem head?_sortedDesc_perm {m' : α} (hp : l.Perm l') (h : (sortedDesc key l).head? = some m)
    (h' : (sortedDesc key l').head? = some m') : key m = key m' :=
  le_antisymm ((head?_sortedDesc.mp h').le (hp.mem_iff.mp (head?_sortedDesc.mp h).mem))
    ((head?_sortedDesc.mp h).le (hp.mem_iff.mpr (head?_sortedDesc.mp h').mem))

end AI2Apps.StableSort
