import Mathlib.Data.Finset.Basic
import Mathlib.Data.Finset.Lattice.Lemmas

/-!
# Names that are opened and closed

An item of a sequence opens names, none of which may be open, and may then close one that
is open.  What a part of a sequence does to the open names does not depend on the names that
are open besides, so a part that opens and closes its own names can be left out.

* `scan`: the names that are open after a sequence.
* `scan_frame`: the names that are open besides stay open.
* `scan_of_closed`: a part that is closed in itself changes nothing.
-/

namespace AI2Apps.Pending

variable {κ : Type} [DecidableEq κ] {p q q' f : Finset κ}

/-- What is opened, and what is closed then. -/
structure Item (κ : Type) where
  opens : List κ
  closes : Option κ

def openAll (p : Finset κ) : List κ → Option (Finset κ)
  | [] => some p
  | k :: ks => if k ∈ p then none else openAll (insert k p) ks

def close (p : Finset κ) : Option κ → Option (Finset κ)
  | none => some p
  | some k => if k ∈ p then some (p.erase k) else none

def Item.step (item : Item κ) (p : Finset κ) : Option (Finset κ) :=
  (openAll p item.opens).bind fun q => close q item.closes

/-- The open names after the items, when each may do what it does. -/
def scan (p : Finset κ) : List (Item κ) → Option (Finset κ)
  | [] => some p
  | item :: items => (item.step p).bind fun q => scan q items

theorem openAll_frame {ks : List κ} (hp : Disjoint p f) (h : openAll p ks = some q)
    (h' : openAll (p ∪ f) ks = some q') : q' = q ∪ f ∧ Disjoint q f := by
  induction ks generalizing p with
  | nil =>
    obtain rfl := Option.some.inj h
    obtain rfl := Option.some.inj h'
    exact ⟨rfl, hp⟩
  | cons k ks ih =>
    rw [openAll] at h h'
    split_ifs at h h' with hk hk'
    rw [Finset.mem_union, not_or] at hk'
    rw [← Finset.insert_union] at h'
    exact ih (Finset.disjoint_insert_left.mpr ⟨hk'.2, hp⟩) h h'

theorem close_frame {k : Option κ} (hp : Disjoint p f) (h : close p k = some q)
    (h' : close (p ∪ f) k = some q') : q' = q ∪ f ∧ Disjoint q f := by
  cases k with
  | none =>
    obtain rfl := Option.some.inj h
    obtain rfl := Option.some.inj h'
    exact ⟨rfl, hp⟩
  | some k =>
    rw [close] at h h'
    split_ifs at h h' with hk
    obtain rfl := Option.some.inj h
    obtain rfl := Option.some.inj h'
    have hkf : k ∉ f := Finset.disjoint_left.mp hp hk
    rw [Finset.erase_union_distrib, Finset.erase_eq_of_notMem hkf]
    exact ⟨rfl, hp.mono_left (Finset.erase_subset k p)⟩

theorem Item.step_frame {item : Item κ} (hp : Disjoint p f) (h : item.step p = some q)
    (h' : item.step (p ∪ f) = some q') : q' = q ∪ f ∧ Disjoint q f := by
  obtain ⟨r, hr, h⟩ := Option.bind_eq_some_iff.mp h
  obtain ⟨r', hr', h'⟩ := Option.bind_eq_some_iff.mp h'
  obtain ⟨rfl, hdisjoint⟩ := openAll_frame hp hr hr'
  exact close_frame hdisjoint h h'

/-- **The names that are open besides stay open.** -/
theorem scan_frame {items : List (Item κ)} (hp : Disjoint p f) (h : scan p items = some q)
    (h' : scan (p ∪ f) items = some q') : q' = q ∪ f := by
  induction items generalizing p with
  | nil =>
    obtain rfl := Option.some.inj h
    exact (Option.some.inj h').symm
  | cons item items ih =>
    obtain ⟨r, hr, h⟩ := Option.bind_eq_some_iff.mp h
    obtain ⟨r', hr', h'⟩ := Option.bind_eq_some_iff.mp h'
    obtain ⟨rfl, hdisjoint⟩ := Item.step_frame hp hr hr'
    exact ih hdisjoint h h'

/-- What is closed in itself changes nothing where it may stand. -/
theorem scan_of_closed {items : List (Item κ)} (h : scan ∅ items = some ∅)
    (h' : scan p items = some q) : q = p := by
  rw [← Finset.empty_union p] at h'
  rw [scan_frame (Finset.disjoint_empty_left p) h h', Finset.empty_union]

end AI2Apps.Pending
