import Mathlib.Data.List.Nodup
import Mathlib.Data.List.Range

/-!
# Writes to disjoint regions

A store is read at addresses.  A write sets the addresses of a region, in order, to given values
and leaves the others.  Writes to regions without common addresses do not disturb each other, in
whatever order they are made.

* `Holds`: what a region reads as.
* `Writes`: one store is another with a region written.
* `Writes.append`: two writes are one.
* `holds_foldl`: after writes to disjoint regions each region holds its values.
-/

namespace AI2Apps.Regions

variable {σ A V ι : Type} {read : σ → A → Option V} {s s₁ s' : σ} {R R' : List A} {vs vs' : List V}

/-- The region reads as the values. -/
def Holds (read : σ → A → Option V) (s : σ) (R : List A) (vs : List V) : Prop :=
  R.map (read s) = vs.map some

theorem holds_append :
    Holds read s (R ++ R') vs ↔ ∃ us ws, vs = us ++ ws ∧ Holds read s R us ∧ Holds read s R' ws := by
  rw [Holds, List.map_append]
  constructor
  · intro h
    obtain ⟨us, ws, rfl, hus, hws⟩ := List.map_eq_append_iff.mp h.symm
    exact ⟨us, ws, rfl, hus.symm, hws.symm⟩
  · rintro ⟨us, ws, rfl, hus, hws⟩
    rw [List.map_append, hus, hws]

/-- `s'` is `s` with the region set to the values. -/
structure Writes (read : σ → A → Option V) (s s' : σ) (R : List A) (vs : List V) : Prop where
  holds : Holds read s' R vs
  frame : ∀ a ∉ R, read s' a = read s a

theorem Writes.nil (read : σ → A → Option V) (s : σ) : Writes read s s [] [] :=
  ⟨rfl, fun _ _ => rfl⟩

/-- A region without common addresses reads as before. -/
theorem Writes.map_eq (h : Writes read s s' R vs) (hR : R'.Disjoint R) :
    R'.map (read s') = R'.map (read s) :=
  List.map_congr_left fun a ha => h.frame a (hR ha)

theorem Writes.holds_of_disjoint (h : Writes read s s' R vs) (hR : R'.Disjoint R)
    (h' : Holds read s R' vs') : Holds read s' R' vs' :=
  (h.map_eq hR).trans h'

/-- Two writes to disjoint regions are a write to both. -/
theorem Writes.append (h : Writes read s s₁ R vs) (h' : Writes read s₁ s' R' vs')
    (hR : R.Disjoint R') : Writes read s s' (R ++ R') (vs ++ vs') where
  holds := by
    exact holds_append.mpr ⟨vs, vs', rfl, h'.holds_of_disjoint hR h.holds, h'.holds⟩
  frame a ha := by
    rw [List.mem_append, not_or] at ha
    rw [h'.frame a ha.2, h.frame a ha.1]

variable {write : σ → ι → σ} {region : ι → List A} {values : ι → List V}

/-- After writes to disjoint regions each region holds its values, and nothing else is changed. -/
theorem holds_foldl (P : σ → Prop) :
    ∀ {is : List ι} {s : σ},
      (∀ i ∈ is, ∀ s, P s → P (write s i) ∧ Writes read s (write s i) (region i) (values i)) →
      P s → is.Pairwise (fun i j => (region i).Disjoint (region j)) →
      P (is.foldl write s) ∧ (∀ i ∈ is, Holds read (is.foldl write s) (region i) (values i)) ∧
        ∀ a, (∀ i ∈ is, a ∉ region i) → read (is.foldl write s) a = read s a
  | [], s, _, hs, _ => ⟨hs, by simp, fun _ _ => rfl⟩
  | i :: is, s, hwrite, hs, hdisjoint => by
    rw [List.pairwise_cons] at hdisjoint
    obtain ⟨hs', hwrites⟩ := hwrite i (List.mem_cons_self ..) s hs
    obtain ⟨hend, hholds, hframe⟩ :=
      holds_foldl P (fun j hj => hwrite j (List.mem_cons_of_mem _ hj)) hs' hdisjoint.2
    rw [List.foldl_cons]
    refine ⟨hend, fun j hj => ?_, fun a ha => ?_⟩
    · rcases List.mem_cons.mp hj with rfl | hj
      · -- The later writes are elsewhere.
        have hsame : (region j).map (read (is.foldl write (write s j))) =
            (region j).map (read (write s j)) :=
          List.map_congr_left fun a ha => hframe a fun k hk => hdisjoint.1 k hk ha
        exact hsame.trans hwrites.holds
      · exact hholds j hj
    · rw [hframe a fun j hj => ha j (List.mem_cons_of_mem _ hj)]
      exact hwrites.frame a (ha i (List.mem_cons_self ..))

end AI2Apps.Regions
