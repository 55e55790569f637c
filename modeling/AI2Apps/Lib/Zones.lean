import Mathlib.Algebra.Order.Group.Unbundled.Int
import Mathlib.Data.Int.LeastGreatest
import Mathlib.Order.Bounds.Basic
import Mathlib.Tactic.Linarith
import Mathlib.Tactic.Ring

/-!
# Time zones as offset functions

A zone gives every instant an offset.  Its wall clock is the instant and the offset together.  The
offset changes by at most a bound, and two changes are at least a day apart; so the wall clock
jumps over some times and shows some times twice, but it always gets on.

* `Zone`: the offsets, and the first instant a wall clock shows a time.
* `Zone.exists_passage`: the first instant at which the clock has reached a time.
* `Zone.First.lt`: the first showing of a time is after all earlier times.
* `Passage.wall_later`: after a jump over a time the clock leaves out nothing for a day.
* `Zone.passage_le_of_short`, `Zone.passage_le_of_day`: how long the clock takes.
-/

namespace AI2Apps.Zones

/-- A time zone.  The offset changes by at most `shift`, and changes are at least `day` apart. -/
structure Zone (day shift : ℤ) where
  offset : ℤ → ℤ
  /-- The instant of a wall clock time; the first one, when the clock shows it twice.  Of a time
  the clock never shows nothing is said. -/
  instantOf : ℤ → ℤ
  room : 3 * shift < day
  change_le : ∀ t, |offset t - offset (t - 1)| ≤ shift
  apart : ∀ t u, t < u → offset t ≠ offset (t - 1) → offset u ≠ offset (u - 1) → t + day ≤ u
  instantOf_first : ∀ t, instantOf (t + offset t) ≤ t ∧
    instantOf (t + offset t) + offset (instantOf (t + offset t)) = t + offset t

namespace Zone

variable {day shift : ℤ} (z : Zone day shift)

/-- What the clock shows at an instant. -/
def wall (t : ℤ) : ℤ :=
  t + z.offset t

/-- The offset is another one than just before. -/
def Changes (t : ℤ) : Prop :=
  z.offset t ≠ z.offset (t - 1)

/-- The instant is the first one at which the clock shows what it shows. -/
def First (t : ℤ) : Prop :=
  ∀ u < t, z.wall u ≠ z.wall t

theorem shift_nonneg (z : Zone day shift) : 0 ≤ shift :=
  le_trans (abs_nonneg _) (z.change_le 0)

/-! ## Between two changes -/

theorem exists_change {t u : ℤ} (h : t ≤ u) (hne : z.offset u ≠ z.offset t) :
    ∃ c, t < c ∧ c ≤ u ∧ z.Changes c := by
  induction u, h using Int.leInduction with
  | base => exact absurd rfl hne
  | succ u hu ih =>
    by_cases hchange : z.Changes (u + 1)
    · exact ⟨u + 1, by omega, le_refl _, hchange⟩
    · rw [Changes, not_not, add_sub_cancel_right] at hchange
      rw [hchange] at hne
      obtain ⟨c, hc, hcu, hchanges⟩ := ih hne
      exact ⟨c, hc, by omega, hchanges⟩

theorem offset_after {c u : ℤ} (hc : z.Changes c) (hu : c ≤ u) (hlt : u < c + day) :
    z.offset u = z.offset c := by
  by_contra hne
  obtain ⟨c', hcc', hc'u, hc'⟩ := z.exists_change hu hne
  have := z.apart c c' hcc' hc hc'
  omega

theorem offset_before {c u : ℤ} (hc : z.Changes c) (hu : u < c) (hge : c ≤ u + day) :
    z.offset u = z.offset (c - 1) := by
  by_contra hne
  obtain ⟨c', huc', hc'c, hc'⟩ := z.exists_change (show u ≤ c - 1 by omega) (Ne.symm hne)
  have := z.apart c' c (by omega) hc' hc
  omega

theorem wall_after {c u : ℤ} (hc : z.Changes c) (hu : c ≤ u) (hlt : u < c + day) :
    z.wall u = z.wall c + (u - c) := by
  rw [wall, wall, z.offset_after hc hu hlt]
  ring

/-- Within a day the clock goes on as time does, up to one change. -/
theorem abs_offset_sub_le {t u : ℤ} (h : t ≤ u) (hday : u ≤ t + day) :
    |z.offset u - z.offset t| ≤ shift := by
  by_cases hne : z.offset u = z.offset t
  · rw [hne, sub_self, abs_zero]
    exact z.shift_nonneg
  · obtain ⟨c, htc, hcu, hc⟩ := z.exists_change h hne
    rw [z.offset_after hc hcu (by omega), z.offset_before hc htc (by omega)]
    exact z.change_le c

theorem wall_ge_of_le_day {t u : ℤ} (h : t ≤ u) (hday : u ≤ t + day) :
    z.wall t + (u - t) - shift ≤ z.wall u := by
  have := abs_le.mp (z.abs_offset_sub_le h hday)
  rw [wall, wall]
  omega

/-! ## Over many days -/

theorem wall_add_days (t : ℤ) (n : ℕ) :
    z.wall t + n * (day - shift) ≤ z.wall (t + n * day) := by
  have hshift := z.shift_nonneg
  have hroom := z.room
  induction n with
  | zero => simp
  | succ n ih =>
    have hstep := z.wall_ge_of_le_day (t := t + n * day) (u := t + n * day + day) (by omega) le_rfl
    have hsame : t + ((n + 1 : ℕ) : ℤ) * day = t + n * day + day := by push_cast; ring
    have hgrow : ((n + 1 : ℕ) : ℤ) * (day - shift) = n * (day - shift) + (day - shift) := by
      push_cast
      ring
    rw [hsame, hgrow]
    linarith

/-- The clock goes back by one change at most. -/
theorem wall_sub_shift_le {t u : ℤ} (h : t ≤ u) : z.wall t - shift ≤ z.wall u := by
  have hshift := z.shift_nonneg
  have hroom := z.room
  have hday : 0 < day := by omega
  -- whole days, then the rest
  obtain ⟨n, hn⟩ := Int.eq_ofNat_of_zero_le (Int.ediv_nonneg (sub_nonneg.mpr h) hday.le)
  have hsplit := Int.emod_add_mul_ediv (u - t) day
  have hrest := Int.emod_nonneg (u - t) hday.ne'
  have hrest' := Int.emod_lt_of_pos (u - t) hday
  rw [hn, mul_comm] at hsplit
  have hdays := z.wall_add_days t n
  have hlast := z.wall_ge_of_le_day (t := t + n * day) (u := u) (by linarith) (by linarith)
  have hpos : (0 : ℤ) ≤ n * (day - shift) := mul_nonneg (Int.natCast_nonneg n) (by omega)
  linarith

/-- In so many days the clock does not get further than the days and their changes. -/
theorem wall_le_add_days {t u : ℤ} (h : t ≤ u) (n : ℕ) (hn : u ≤ t + n * day) :
    z.wall u ≤ z.wall t + n * (day + shift) := by
  have hshift := z.shift_nonneg
  have hroom := z.room
  induction n generalizing u with
  | zero =>
    have : u = t := by simp at hn; omega
    simp [this]
  | succ n ih =>
    have hsame : t + ((n + 1 : ℕ) : ℤ) * day = t + n * day + day := by push_cast; ring
    have hgrow : ((n + 1 : ℕ) : ℤ) * (day + shift) = n * (day + shift) + (day + shift) := by
      push_cast
      ring
    rw [hsame] at hn
    rw [hgrow]
    by_cases hday : u ≤ t + n * day
    · have := ih h hday
      linarith
    · have hdays := ih (u := t + n * day)
        (by have := mul_nonneg (Int.natCast_nonneg n) (show 0 ≤ day by omega); linarith) le_rfl
      have hlast := abs_le.mp (z.abs_offset_sub_le (t := t + n * day) (u := u) (by omega) hn)
      rw [wall] at hdays ⊢
      rw [wall] at hdays ⊢
      linarith

theorem exists_wall_ge (w : ℤ) : ∃ t, w ≤ z.wall t := by
  have hshift := z.shift_nonneg
  have hroom := z.room
  refine ⟨0 + ((w - z.wall 0).toNat : ℕ) * day, le_trans ?_ (z.wall_add_days 0 _)⟩
  have hn : w - z.wall 0 ≤ ((w - z.wall 0).toNat : ℤ) := Int.self_le_toNat _
  have hmul : ((w - z.wall 0).toNat : ℤ) * 1 ≤ ((w - z.wall 0).toNat : ℤ) * (day - shift) :=
    mul_le_mul_of_nonneg_left (by omega) (Int.natCast_nonneg _)
  linarith

theorem exists_wall_lt (w : ℤ) : ∃ t, z.wall t < w := by
  have hshift := z.shift_nonneg
  have hroom := z.room
  have hdays := z.wall_add_days (-((z.wall 0 - w + 1).toNat : ℕ) * day) (z.wall 0 - w + 1).toNat
  rw [show -((z.wall 0 - w + 1).toNat : ℤ) * day + ((z.wall 0 - w + 1).toNat : ℕ) * day = 0 by ring]
    at hdays
  have hn : z.wall 0 - w + 1 ≤ ((z.wall 0 - w + 1).toNat : ℤ) := Int.self_le_toNat _
  have hmul : ((z.wall 0 - w + 1).toNat : ℤ) * 1 ≤
      ((z.wall 0 - w + 1).toNat : ℤ) * (day - shift) :=
    mul_le_mul_of_nonneg_left (by omega) (Int.natCast_nonneg _)
  exact ⟨-((z.wall 0 - w + 1).toNat : ℕ) * day, by linarith⟩

/-! ## Reaching a time -/

/-- The instant is the first one at which the clock has reached the time. -/
structure Passage (w t : ℤ) : Prop where
  reached : w ≤ z.wall t
  before : ∀ u < t, z.wall u < w

theorem exists_passage (w : ℤ) : ∃ t, z.Passage w t := by
  obtain ⟨lower, hlower⟩ := z.exists_wall_lt (w - shift)
  have hbound : ∀ t, w ≤ z.wall t → lower ≤ t := by
    intro t ht
    by_contra hlt
    have := z.wall_sub_shift_le (t := t) (u := lower) (by omega)
    omega
  obtain ⟨t, ht, hleast⟩ := Int.exists_least_of_bdd ⟨lower, hbound⟩ (z.exists_wall_ge w)
  refine ⟨t, ht, fun u hu => ?_⟩
  by_contra hge
  have := hleast u (by omega)
  omega

variable {z} {v w t : ℤ}

theorem Passage.changes (h : z.Passage w t) (hskip : z.wall t ≠ w) : z.Changes t := by
  intro hsame
  have hreached := h.reached
  have hbefore := h.before (t - 1) (by omega)
  rw [wall] at *
  omega

/-- What the clock jumps over it does not show later. -/
theorem Passage.wall_eq (h : z.Passage w t) {u : ℤ} (hu : z.wall u = w) : z.wall t = w := by
  by_contra hskip
  have hshift := z.shift_nonneg
  have hroom := z.room
  have hchange := h.changes hskip
  have hreached := h.reached
  have htu : t ≤ u := by
    by_contra hlt
    have := h.before u (by omega)
    omega
  by_cases hday : u < t + day
  · have := z.wall_after hchange htu hday
    omega
  · have hend := z.wall_after hchange (u := t + day - 1) (by omega) (by omega)
    have hlater := z.wall_sub_shift_le (t := t + day - 1) (u := u) (by omega)
    omega

theorem Passage.first (h : z.Passage w t) (hw : z.wall t = w) : z.First t := by
  intro u hu
  have := h.before u hu
  omega

/-- The first showing of a time is after all earlier times. -/
theorem First.lt (h : z.First t) {u : ℤ} (hu : u < t) : z.wall u < z.wall t := by
  obtain ⟨t', ht'⟩ := z.exists_passage (z.wall t)
  have hshown : z.wall t' = z.wall t := ht'.wall_eq rfl
  have hle : t ≤ t' := by
    by_contra hlt
    exact h t' (by omega) hshown
  exact ht'.before u (by omega)

theorem First.instantOf_wall (h : z.First t) : z.instantOf (z.wall t) = t := by
  obtain ⟨hle, hwall⟩ := z.instantOf_first t
  by_contra hne
  exact h (z.instantOf (z.wall t)) (by rw [wall] at *; omega) hwall

/-- A time read back as itself was first shown then. -/
theorem first_instantOf (h : z.wall (z.instantOf w) = w) : z.First (z.instantOf w) := by
  intro u hu hsame
  have hfirst := (z.instantOf_first u).1
  rw [← wall, hsame, h] at hfirst
  omega

theorem lt_of_wall_lt (h : z.First v) (hwall : z.wall v < z.wall t) : v < t := by
  by_contra hle
  rcases (not_lt.mp hle).lt_or_eq with hlt | rfl
  · have := h.lt hlt
    omega
  · omega

/-! ## Jumps -/

/-- After a jump over a time the clock shows every time up to a day later. -/
theorem Passage.wall_later (h : z.Passage w t) (hskip : z.wall t ≠ w) {x : ℤ}
    (hlower : w + shift ≤ x) (hupper : x ≤ w + day) :
    z.wall (t + (x - z.wall t)) = x ∧ t ≤ t + (x - z.wall t) ∧ z.wall t ≤ w + shift := by
  have hreached := h.reached
  have hbefore := h.before (t - 1) (by omega)
  have hchange := abs_le.mp (z.change_le t)
  have hland : z.wall t ≤ w + shift := by
    rw [wall] at *
    omega
  refine ⟨?_, by omega, hland⟩
  rw [z.wall_after (h.changes hskip) (by omega) (by omega)]
  omega

theorem exists_first_of_wall_eq (h : z.wall t = w) : ∃ u ≤ t, z.First u ∧ z.wall u = w := by
  obtain ⟨u, hu⟩ := z.exists_passage w
  have hshown := hu.wall_eq h
  refine ⟨u, ?_, hu.first hshown, hshown⟩
  by_contra hlt
  have := hu.before t (by omega)
  omega

/-- Of two times far enough apart the clock shows one. -/
theorem exists_first_or {x : ℤ} (hlower : w + shift ≤ x) (hupper : x ≤ w + day) :
    (∃ u, z.First u ∧ z.wall u = w) ∨ ∃ u, z.First u ∧ z.wall u = x := by
  obtain ⟨t, ht⟩ := z.exists_passage w
  by_cases hskip : z.wall t = w
  · exact .inl ⟨t, ht.first hskip, hskip⟩
  · obtain ⟨u, -, hu⟩ := exists_first_of_wall_eq (ht.wall_later hskip hlower hupper).1
    exact .inr ⟨u, hu⟩

/-! ## How long the clock takes -/

variable {p : ℤ}

theorem Passage.lt (h : z.Passage (z.wall v + p) t) (hp : 0 < p) (hv : z.First v) : v < t := by
  refine lt_of_wall_lt hv ?_
  have := h.reached
  omega

theorem Passage.le_of_wall_ge (h : z.Passage w t) {u : ℤ} (hu : w ≤ z.wall u) : t ≤ u := by
  by_contra hlt
  have := h.before u (by omega)
  omega

theorem passage_le_of_short (h : z.Passage (z.wall v + p) t) (hp : 0 ≤ p) (hday : p + shift ≤ day) :
    t ≤ v + p + shift := by
  have hshift := z.shift_nonneg
  refine h.le_of_wall_ge ?_
  have := z.wall_ge_of_le_day (t := v) (u := v + p + shift) (by omega) (by omega)
  omega

theorem passage_le_of_day (h : z.Passage (z.wall v + day) t) : t ≤ v + day + 2 * shift := by
  have hshift := z.shift_nonneg
  have hroom := z.room
  refine h.le_of_wall_ge ?_
  have hfirst := z.wall_ge_of_le_day (t := v) (u := v + day) (by omega) le_rfl
  have hlast := z.wall_ge_of_le_day (t := v + day) (u := v + day + 2 * shift) (by omega) (by omega)
  omega

/-- Up to a jump less than a day away the clock takes as long as it says. -/
theorem Passage.le_of_skip_short (h : z.Passage (z.wall v + p) t) (hskip : z.wall t ≠ z.wall v + p)
    (hv : v < t) (hday : t ≤ v + day) : t ≤ v + p := by
  have hbefore := h.before (t - 1) (by omega)
  have hsame := z.offset_before (h.changes hskip) hv hday
  rw [wall, wall] at hbefore
  omega

/-- Up to a jump about a day away there is one other change at most. -/
theorem Passage.le_of_skip_day (h : z.Passage (z.wall v + day) t)
    (hskip : z.wall t ≠ z.wall v + day) : t ≤ v + day + shift := by
  have hroom := z.room
  have hshift := z.shift_nonneg
  have hlate := passage_le_of_day h
  by_cases hday : t ≤ v + day
  · omega
  · have hbefore := h.before (t - 1) (by omega)
    have hchange := h.changes hskip
    have hsame := z.offset_before hchange (u := t - day) (by omega) (by omega)
    have hone := abs_le.mp (z.abs_offset_sub_le (t := v) (u := t - day) (by omega) (by omega))
    rw [wall, wall] at hbefore
    omega

/-- A period of at most a day less a change later, or two, the clock shows the time. -/
theorem First.exists_next_short (hv : z.First v) (hp : shift ≤ p) (hpos : 0 < p)
    (hday : p + shift ≤ day) :
    ∃ u, v < u ∧ u ≤ v + 2 * p ∧ z.First u ∧
      (z.wall u = z.wall v + p ∨ z.wall u = z.wall v + 2 * p) := by
  have hshift := z.shift_nonneg
  obtain ⟨t, ht⟩ := z.exists_passage (z.wall v + p)
  have hvt := ht.lt hpos hv
  have hlate := passage_le_of_short ht hpos.le hday
  by_cases hskip : z.wall t = z.wall v + p
  · exact ⟨t, hvt, by omega, ht.first hskip, .inl hskip⟩
  · obtain ⟨hshown, -, -⟩ :=
      ht.wall_later hskip (x := z.wall v + 2 * p) (by omega) (by omega)
    obtain ⟨u, hu, hfirst, hwall⟩ := exists_first_of_wall_eq hshown
    have hreached := ht.reached
    have hclose := ht.le_of_skip_short hskip hvt (by omega)
    exact ⟨u, lt_of_wall_lt hv (by omega), by omega, hfirst, .inr hwall⟩

/-- A day later, or two, the clock shows the time. -/
theorem First.exists_next_day (hv : z.First v) :
    ∃ u, v < u ∧ u < v + 2 * day + shift ∧ z.First u ∧
      (z.wall u = z.wall v + day ∨ z.wall u = z.wall v + 2 * day) := by
  have hroom := z.room
  have hshift := z.shift_nonneg
  obtain ⟨t, ht⟩ := z.exists_passage (z.wall v + day)
  have hvt := ht.lt (by omega) hv
  by_cases hskip : z.wall t = z.wall v + day
  · have hlate := passage_le_of_day ht
    exact ⟨t, hvt, by omega, ht.first hskip, .inl hskip⟩
  · obtain ⟨hshown, -, -⟩ :=
      ht.wall_later hskip (x := z.wall v + 2 * day) (by omega) (by omega)
    obtain ⟨u, hu, hfirst, hwall⟩ := exists_first_of_wall_eq hshown
    have hreached := ht.reached
    have hclose := ht.le_of_skip_day hskip
    exact ⟨u, lt_of_wall_lt hv (by omega), by omega, hfirst, .inr hwall⟩

/-! ## A zone with one change -/

/-- The zone whose offset changes once. -/
def ofChange (c a b : ℤ) (hroom : 3 * shift < day) (hab : |b - a| ≤ shift) : Zone day shift where
  offset t := if t < c then a else b
  instantOf w := if w - a < c then w - a else w - b
  room := hroom
  change_le t := by
    have hshift : 0 ≤ shift := le_trans (abs_nonneg _) hab
    by_cases h : t = c
    · subst h
      simpa using hab
    · have hsame : (t < c) ↔ (t - 1 < c) := by omega
      simpa [hsame] using hshift
  apart t u htu ht hu := by
    have hone : ∀ t, (if t < c then a else b) ≠ (if t - 1 < c then a else b) → t = c := by
      intro t h
      by_contra hne
      have hsame : (t < c) ↔ (t - 1 < c) := by omega
      simp [hsame] at h
    have := hone t ht
    have := hone u hu
    omega
  instantOf_first t := by
    by_cases ht : t < c
    · have h1 : t + a - a < c := by omega
      simp only [if_pos ht, if_pos h1]
      constructor
      · omega
      · omega
    · simp only [if_neg ht]
      by_cases h1 : t + b - a < c
      · rw [if_pos h1, if_pos h1]
        constructor <;> omega
      · rw [if_neg h1, if_neg (by omega)]
        constructor <;> omega

end Zone

end AI2Apps.Zones
