import AI2Apps.Todo.Schedules

/-!
# Repeating tasks: from which time the latest slot is found

`latest_due` starts a fixed time before the present.  It finds the latest slot when one has been
due since then, and when from each of these the next one is within the search.  Hourly and daily
schedules are always so; a weekly slot the clock has jumped over leaves two weeks without a slot,
and `latest_due` goes back by eight days.

* `Covered`: what `latest_due` needs.
* `latestDue_iff`: the loop finds the latest slot exactly then.
* `due_times`: both functions, for every zone and schedule.
-/

namespace AI2Apps.Todo

open Zones Calendar

variable {z : TimeZone} {s : Schedule} {t c d g v now : ℤ}

/-! ## The loop -/

theorem latestFrom_of_le (h : nextDue z s c = .ok (some d)) (hle : d ≤ now) :
    latestFrom z s now c = latestFrom z s now d := by
  rw [latestFrom]
  split
  · next h' => exact absurd (h.symm.trans h') (by simp)
  · next h' => exact absurd (h.symm.trans h') (by simp)
  · next h' =>
    rw [h, Except.ok.injEq, Option.some.injEq] at h'
    rw [← h', if_pos hle]

theorem latestFrom_of_lt (h : nextDue z s c = .ok (some d)) (hlt : now < d) :
    latestFrom z s now c = .ok c := by
  rw [latestFrom]
  split
  · next h' => exact absurd (h.symm.trans h') (by simp)
  · next h' => exact absurd (h.symm.trans h') (by simp)
  · next h' =>
    rw [h, Except.ok.injEq, Option.some.injEq] at h'
    rw [← h', if_neg (by omega)]

/-- The loop ends where the next slot is in the future. -/
theorem latestFrom_eq_ok (hs : s.frequency ≠ .off) (hc : c ≤ now)
    (h : latestFrom z s now c = .ok g) :
    c ≤ g ∧ g ≤ now ∧ ∃ d, nextDue z s g = .ok (some d) ∧ now < d := by
  induction hn : (now - c).toNat using Nat.strong_induction_on generalizing c with
  | _ n ih =>
    cases hnext : nextDue z s c with
    | error e =>
      rw [latestFrom] at h
      split at h
      · cases h
      · next h' => rw [hnext] at h'; cases h'
      · next h' => rw [hnext] at h'; cases h'
    | ok found =>
      cases found with
      | none =>
        rw [nextDue, if_neg hs] at hnext
        split at hnext <;> cases hnext
      | some d =>
        have hgt := nextDue_gt hnext
        by_cases hle : d ≤ now
        · rw [latestFrom_of_le hnext hle] at h
          obtain ⟨hdg, hrest⟩ := ih (now - d).toNat (by omega) hle h rfl
          exact ⟨by omega, hrest⟩
        · rw [latestFrom_of_lt hnext (by omega), Except.ok.injEq] at h
          subst h
          exact ⟨le_rfl, hc, d, hnext, by omega⟩

/-- Going forward from an instant the loop reaches the latest slot. -/
theorem latestFrom_isGreatest (hs : s.frequency ≠ .off) (hc : InHorizon z s c)
    (hslot : ∃ v, Slot z s v ∧ c ≤ v ∧ v ≤ now)
    (hnext : ∀ v, Slot z s v → c ≤ v → v ≤ now → InHorizon z s v) :
    ∃ g, latestFrom z s now c = .ok g ∧ IsGreatest {v | v ≤ now ∧ Slot z s v} g := by
  induction hn : (now - c).toNat using Nat.strong_induction_on generalizing c with
  | _ n ih =>
    obtain ⟨d, hd⟩ := (exists_nextDue_iff hs).mpr hc
    obtain ⟨⟨⟨hcd, hslotd⟩, hleast⟩, -⟩ := nextDue_isLeast hd
    by_cases hle : d ≤ now
    · rw [latestFrom_of_le hd hle]
      exact ih (now - d).toNat (by omega) (hnext d hslotd hcd.le hle) ⟨d, hslotd, le_rfl, hle⟩
        (fun v hv hdv => hnext v hv (by omega)) rfl
    · rw [latestFrom_of_lt hd (by omega)]
      obtain ⟨v, hv, hcv, hvnow⟩ := hslot
      have hvc : v = c := by
        by_contra hne
        have := hleast ⟨show c < v by omega, hv⟩
        omega
      subst hvc
      refine ⟨v, rfl, ⟨hvnow, hv⟩, ?_⟩
      rintro u ⟨hu, huslot⟩
      by_contra hlt
      have := hleast ⟨show v < u by omega, huslot⟩
      omega

/-! ## Near slots are within the search -/

theorem inHorizon_of_days (hs : s.frequency ≠ .hourly) (hv : Slot z s v) (hlt : t < v)
    (hnear : v ≤ t + days 64) : InHorizon z s t := by
  refine ⟨v, hlt, hv, ?_⟩
  have hgrow := z.wall_le_add_days hlt.le 64 (by simp only [days] at hnear; push_cast; exact hnear)
  have hhorizon : horizon s (z.wall t) = days (z.wall t / days 1 + 370) := by
    rw [horizon]
    split
    · exact absurd ‹_› hs
    · rfl
  rw [hhorizon]
  simp only [days, one_mul] at *
  push_cast at hgrow
  omega

theorem lt_of_hour_lt (h : z.wall t + hours 1 < z.wall v) : t < v := by
  by_contra hle
  have := z.wall_sub_shift_le (t := v) (u := t) (by omega)
  simp only [hours] at h
  omega

theorem inHorizon_of_hourly (hs : s.frequency = .hourly) (t : ℤ) : InHorizon z s t := by
  have hminute := s.minute_range
  -- two hours on there is one, or three hours on
  obtain ⟨v, hfirst, hv⟩ | ⟨v, hfirst, hv⟩ :=
    Zone.exists_first_or (z := z) (w := hours (z.wall t / hours 1 + 2) + minutes s.minute)
      (x := hours (z.wall t / hours 1 + 3) + minutes s.minute)
      (by simp only [hours]; omega) (by simp only [hours]; omega)
  all_goals
    refine ⟨v, lt_of_hour_lt (z := z) ?_, ⟨?_, hfirst⟩, ?_⟩
    · rw [hv]
      simp only [hours, minutes, one_mul]
      omega
    · rw [hv, Matches, hs]
      simp only [hours, minutes, one_mul]
      omega
    · rw [hv, horizon, hs]
      simp only [hours, minutes, one_mul]
      omega

theorem inHorizon_of_daily (hs : s.frequency = .daily) (t : ℤ) : InHorizon z s t := by
  have htime := s.timeOfDay_range
  have hon : ∀ date, s.onDate date = true := fun date => by rw [Schedule.onDate, hs]
  obtain ⟨v, hfirst, hv⟩ | ⟨v, hfirst, hv⟩ :=
    Zone.exists_first_or (z := z) (w := days (z.wall t / days 1 + 2) + s.timeOfDay)
      (x := days (z.wall t / days 1 + 3) + s.timeOfDay)
      (by simp only [days]; omega) (by simp only [days]; omega)
  all_goals
    refine ⟨v, lt_of_hour_lt (z := z) ?_, ⟨?_, hfirst⟩, ?_⟩
    · rw [hv]
      simp only [days, hours, one_mul] at *
      omega
    · rw [hv, Matches, hs]
      refine ⟨hon _, ?_⟩
      simp only [days, one_mul] at *
      omega
    · rw [hv, horizon, hs]
      simp only [days, one_mul] at *
      omega

/-! ## How far back -/

/-- A slot has been due in the time `latest_due` goes back, and from each of these slots the next
one is within the search. -/
def Covered (z : TimeZone) (s : Schedule) (now : ℤ) : Prop :=
  ∃ n, lookback s.frequency = some n ∧
    (∃ v, Slot z s v ∧ now - hours n ≤ v ∧ v ≤ now) ∧
    ∀ v, Slot z s v → now - hours n ≤ v → v ≤ now → InHorizon z s v

theorem lookback_range {f : Frequency} {n : ℤ} (h : lookback f = some n) :
    0 ≤ n ∧ hours n ≤ days 63 := by
  cases f <;> rw [lookback] at h <;> cases h <;> decide

theorem inHorizon_of_lookback {n : ℤ} (hn : lookback s.frequency = some n) (hv : Slot z s v)
    (hlt : t < v) (hnear : v ≤ t + hours n) : InHorizon z s t := by
  obtain ⟨-, hmax⟩ := lookback_range hn
  by_cases hhourly : s.frequency = .hourly
  · exact inHorizon_of_hourly hhourly t
  · refine inHorizon_of_days hhourly hv hlt ?_
    simp only [days] at *
    omega

/-- `latest_due` returns the latest slot exactly when the present is covered. -/
theorem latestDue_iff (hs : s.frequency ≠ .off) :
    (∃ g, latestDue z s now = .ok g ∧ IsGreatest {v | v ≤ now ∧ Slot z s v} g) ↔
      Covered z s now := by
  obtain ⟨n, hn⟩ : ∃ n, lookback s.frequency = some n := by
    cases hfrequency : s.frequency
    · exact absurd hfrequency hs
    all_goals exact ⟨_, rfl⟩
  obtain ⟨hn0, -⟩ := lookback_range hn
  have hback : now - hours n ≤ now := by
    simp only [hours]
    omega
  simp only [latestDue, hn, Covered, Option.some.injEq, exists_eq_left']
  constructor
  · rintro ⟨g, hg, ⟨-, hslot⟩, hgreatest⟩
    obtain ⟨hge, hle, d, hd, hfuture⟩ := latestFrom_eq_ok hs hback hg
    refine ⟨⟨g, hslot, hge, hle⟩, fun v hv hnv hvnow => ?_⟩
    rcases (hgreatest ⟨hvnow, hv⟩).lt_or_eq with hvg | rfl
    · exact inHorizon_of_lookback hn hslot hvg (by omega)
    · exact (exists_nextDue_iff hs).mp ⟨d, hd⟩
  · rintro ⟨⟨v, hv, hnv, hvnow⟩, hnext⟩
    refine latestFrom_isGreatest hs ?_ ⟨v, hv, hnv, hvnow⟩ hnext
    rcases hnv.lt_or_eq with hlt | heq
    · exact inHorizon_of_lookback hn hv hlt (by omega)
    · rw [heq]
      exact hnext v hv hnv hvnow

/-! ## Hourly and daily schedules -/

theorem exists_greatest_slot (hd : Slot z s d) (hle : d ≤ now) :
    ∃ g, IsGreatest {v | v ≤ now ∧ Slot z s v} g := by
  obtain ⟨g, hg, hgreatest⟩ := Int.exists_greatest_of_bdd
    (P := fun v => v ≤ now ∧ Slot z s v) ⟨now, fun v hv => hv.1⟩ ⟨d, hle, hd⟩
  exact ⟨g, hg, fun v hv => hgreatest v hv⟩

theorem covered_of_hourly (hs : s.frequency = .hourly) (hd : Slot z s d) (hle : d ≤ now) :
    Covered z s now := by
  obtain ⟨g, ⟨hgnow, hmatches, hfirst⟩, hgreatest⟩ := exists_greatest_slot hd hle
  refine ⟨2, by rw [hs]; rfl, ⟨g, ⟨hmatches, hfirst⟩, ?_, hgnow⟩,
    fun v _ _ _ => inHorizon_of_hourly hs v⟩
  obtain ⟨u, hgu, hug, hu, hwall⟩ :=
    hfirst.exists_next_short (p := hours 1) (by decide) (by decide) (by decide)
  have hslot : Slot z s u := by
    refine ⟨?_, hu⟩
    rw [Matches, hs] at hmatches ⊢
    simp only [hours, one_mul] at *
    rcases hwall with hwall | hwall <;> rw [hwall] <;> omega
  by_contra hfar
  have := hgreatest ⟨show u ≤ now by simp only [hours] at *; omega, hslot⟩
  omega

theorem covered_of_daily (hs : s.frequency = .daily) (hd : Slot z s d) (hle : d ≤ now) :
    Covered z s now := by
  have hon : ∀ date, s.onDate date = true := fun date => by rw [Schedule.onDate, hs]
  obtain ⟨g, ⟨hgnow, hmatches, hfirst⟩, hgreatest⟩ := exists_greatest_slot hd hle
  refine ⟨49, by rw [hs]; rfl, ⟨g, ⟨hmatches, hfirst⟩, ?_, hgnow⟩,
    fun v _ _ _ => inHorizon_of_daily hs v⟩
  obtain ⟨u, hgu, hug, hu, hwall⟩ := hfirst.exists_next_day
  have hslot : Slot z s u := by
    refine ⟨?_, hu⟩
    rw [Matches, hs] at hmatches ⊢
    obtain ⟨-, hmod⟩ := hmatches
    refine ⟨hon _, ?_⟩
    simp only [days, one_mul] at *
    rcases hwall with hwall | hwall <;> rw [hwall] <;> omega
  by_contra hfar
  have := hgreatest ⟨show u ≤ now by simp only [hours] at *; omega, hslot⟩
  omega

/-! ## Both functions -/

/-- For an enabled schedule in any zone: `next_due` returns the least slot after an instant exactly
when one is within the search; `latest_due` returns the latest slot exactly when the present is
covered; hourly and daily schedules meet both conditions, the latter once a slot has been
returned. -/
theorem due_times (z : TimeZone) (s : Schedule) (hs : s.frequency ≠ .off) :
    (∀ t, (∃ d, nextDue z s t = .ok (some d) ∧ IsLeast {v | t < v ∧ Slot z s v} d) ↔
      InHorizon z s t) ∧
    (∀ now, (∃ g, latestDue z s now = .ok g ∧ IsGreatest {v | v ≤ now ∧ Slot z s v} g) ↔
      Covered z s now) ∧
    (s.frequency = .hourly ∨ s.frequency = .daily →
      ∀ t, InHorizon z s t ∧
        ∀ d now, nextDue z s t = .ok (some d) → d ≤ now → Covered z s now) := by
  refine ⟨fun t => ?_, fun now => latestDue_iff hs, fun hfrequency t => ?_⟩
  · rw [← exists_nextDue_iff hs]
    constructor
    · rintro ⟨d, hd, -⟩
      exact ⟨d, hd⟩
    · rintro ⟨d, hd⟩
      exact ⟨d, hd, (nextDue_isLeast hd).1⟩
  · rcases hfrequency with hhourly | hdaily
    · exact ⟨inHorizon_of_hourly hhourly t, fun d now hd hle =>
        covered_of_hourly hhourly (nextDue_isLeast hd).1.1.2 hle⟩
    · exact ⟨inHorizon_of_daily hdaily t, fun d now hd hle =>
        covered_of_daily hdaily (nextDue_isLeast hd).1.1.2 hle⟩

/-- The zone of New York in the first half of 2024; the clock jumps from 2:00 to 3:00 on 10
March. -/
def newYork : TimeZone :=
  Zone.ofChange (days 738954 + hours 7) (-hours 5) (-hours 4) (by decide) (by decide)

/-- Sundays at 2:30. -/
def sundays : Schedule :=
  ⟨.weekly, 2, 30, 6, 1, by decide, by decide, by decide, by decide⟩

theorem sundays_first :
    nextDue newYork sundays (days 738947) = .ok (some (days 738947 + hours 7 + minutes 30)) := by
  rfl

theorem sundays_skipped :
    nextDue newYork sundays (days 738956 - hours (24 * 8)) =
      .ok (some (days 738961 + hours 6 + minutes 30)) := by
  rfl

theorem due_times_sundays :
    (∀ t, (∃ d, nextDue newYork sundays t = .ok (some d) ∧
        IsLeast {v | t < v ∧ Slot newYork sundays v} d) ↔ InHorizon newYork sundays t) ∧
      ∀ now, (∃ g, latestDue newYork sundays now = .ok g ∧
        IsGreatest {v | v ≤ now ∧ Slot newYork sundays v} g) ↔ Covered newYork sundays now :=
  have h := due_times newYork sundays (by decide)
  ⟨h.1, h.2.1⟩

/-- On 12 March nothing has been due for nine days, and `latest_due` returns no slot. -/
theorem latestDue_not_slot :
    ¬ ∀ (z : TimeZone) (s : Schedule), s.frequency ≠ .off → ∀ t d now,
      nextDue z s t = .ok (some d) → d ≤ now →
        ∃ g, latestDue z s now = .ok g ∧ IsGreatest {v | v ≤ now ∧ Slot z s v} g := by
  intro h
  obtain ⟨g, hg, ⟨-, ⟨-, htime⟩, -⟩, -⟩ :=
    h newYork sundays (by decide) (days 738947) (days 738947 + hours 7 + minutes 30) (days 738956)
      sundays_first (by decide)
  have hlatest : latestDue newYork sundays (days 738956) = .ok (days 738956 - hours (24 * 8)) :=
    latestFrom_of_lt sundays_skipped (by decide)
  rw [hlatest, Except.ok.injEq] at hg
  subst hg
  exact absurd htime (by decide)

end AI2Apps.Todo
