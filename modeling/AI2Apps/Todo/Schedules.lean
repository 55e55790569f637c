import AI2Apps.Lib.Calendar
import AI2Apps.Lib.Zones
import Mathlib.Data.List.Range

/-!
# Repeating tasks: the next and the latest due time

A task repeats by the wall clock of a time zone.  `next_due` tries the wall clock times that match
its schedule, one after another, and takes the first one that is shown after the given instant.
`latest_due` goes back by a fixed time and asks for the next one until the present is passed.

Instants and wall clock times are counted in microseconds from the beginning of year 1.

* `nextDue`, `latestDue`: the two functions.
* `Slot`: an instant at which the schedule is due.
* `nextDue_isLeast`, `exists_nextDue_iff`: the next one, and when there is one.
-/

namespace AI2Apps.Todo

open Zones Calendar

/-- So many hours. -/
abbrev hours (n : ℤ) : ℤ := n * 3600000000

/-- So many minutes. -/
abbrev minutes (n : ℤ) : ℤ := n * 60000000

/-- So many days. -/
abbrev days (n : ℤ) : ℤ := n * 86400000000

/-- A time zone whose changes are of at most one hour and at least a day apart. -/
abbrev TimeZone := Zone 86400000000 3600000000

inductive Frequency where
  | off
  | hourly
  | daily
  | weekly
  | monthly
  deriving DecidableEq, Repr

/-- A valid schedule; the time zone is apart. -/
structure Schedule where
  frequency : Frequency
  hour : ℤ
  minute : ℤ
  weekday : ℤ
  day : ℤ
  hour_range : 0 ≤ hour ∧ hour ≤ 23
  minute_range : 0 ≤ minute ∧ minute ≤ 59
  weekday_range : 0 ≤ weekday ∧ weekday ≤ 6
  day_range : 1 ≤ day ∧ day ≤ 31

/-! ## Dates -/

/-- The fields of a date.  The calendar repeats every 400 years. -/
def fields (date : ℤ) : Ymd :=
  ord2ymd ((date % 146097).toNat + 1)

/-- The weekday of a date, Monday first. -/
def dateWeekday (date : ℤ) : ℤ :=
  date % 7

/-- The second value of `calendar.monthrange`. -/
def monthLength (d : Ymd) : ℕ :=
  daysBeforeMonth (isLeap d.year) (d.month + 1) - daysBeforeMonth (isLeap d.year) d.month

/-- The date is not passed over. -/
def Schedule.onDate (s : Schedule) (date : ℤ) : Bool :=
  match s.frequency with
  | .weekly => dateWeekday date == s.weekday
  | .monthly => ((fields date).day : ℤ) == min s.day (monthLength (fields date))
  | _ => true

/-- The time of the day. -/
def Schedule.timeOfDay (s : Schedule) : ℤ :=
  hours s.hour + minutes s.minute

theorem Schedule.timeOfDay_range (s : Schedule) : 0 ≤ s.timeOfDay ∧ s.timeOfDay < days 1 := by
  have hhour := s.hour_range
  have hminute := s.minute_range
  simp only [timeOfDay, days, hours, minutes]
  constructor <;> omega

/-! ## The code -/

/-- The wall clock times that are tried, from the present one. -/
def candidates (s : Schedule) (loc : ℤ) : List ℤ :=
  match s.frequency with
  | .hourly => (List.range 4).map fun i : ℕ => loc / hours 1 * hours 1 + minutes s.minute + hours i
  | _ =>
    (((List.range 370).map fun offset : ℕ => loc / days 1 + offset).filter s.onDate).map
      fun date => days date + s.timeOfDay

/-- The instant of a wall clock time, if it is later and is read back as that time. -/
def accept (z : TimeZone) (after candidate : ℤ) : Option ℤ :=
  let utc := z.instantOf candidate
  if after < utc ∧ z.wall utc = candidate then some utc else none

/-- The first accepted one. -/
def search (z : TimeZone) (after : ℤ) (cs : List ℤ) : Option ℤ :=
  cs.findSome? (accept z after)

/-- `next_due`. -/
def nextDue (z : TimeZone) (s : Schedule) (after : ℤ) : Except String (Option ℤ) :=
  if s.frequency = .off then .ok none
  else
    match search z after (candidates s (z.wall after)) with
    | some utc => .ok (some utc)
    | none => .error "Cannot calculate next schedule time"

/-- How many hours `latest_due` goes back. -/
def lookback : Frequency → Option ℤ
  | .off => none
  | .hourly => some 2
  | .daily => some 49
  | .weekly => some (24 * 8)
  | .monthly => some (24 * 63)

variable {z : TimeZone} {after d : ℤ} {s : Schedule}

theorem accept_eq_some {c : ℤ} :
    accept z after c = some d ↔ after < d ∧ z.First d ∧ z.wall d = c := by
  rw [accept]
  constructor
  · intro h
    split_ifs at h with hc
    obtain ⟨hlt, hwall⟩ := hc
    rw [Option.some.injEq] at h
    subst h
    exact ⟨hlt, Zone.first_instantOf hwall, hwall⟩
  · rintro ⟨hlt, hfirst, rfl⟩
    rw [hfirst.instantOf_wall, if_pos ⟨hlt, rfl⟩]

theorem search_eq_some {cs : List ℤ} (h : search z after cs = some d) :
    after < d ∧ z.First d ∧ z.wall d ∈ cs := by
  obtain ⟨c, hc, hd⟩ := List.exists_of_findSome?_eq_some h
  obtain ⟨hlt, hfirst, rfl⟩ := accept_eq_some.mp hd
  exact ⟨hlt, hfirst, hc⟩

theorem nextDue_eq_some :
    nextDue z s after = .ok (some d) ↔
      s.frequency ≠ .off ∧ search z after (candidates s (z.wall after)) = some d := by
  rw [nextDue]
  by_cases hoff : s.frequency = .off
  · simp [hoff]
  · rw [if_neg hoff]
    cases search z after (candidates s (z.wall after)) <;> simp [hoff]

theorem nextDue_gt (h : nextDue z s after = .ok (some d)) : after < d :=
  (search_eq_some (nextDue_eq_some.mp h).2).1

/-- The loop of `latest_due`; its `latest` is always its `cursor`. -/
def latestFrom (z : TimeZone) (s : Schedule) (now cursor : ℤ) : Except String ℤ :=
  match _h : nextDue z s cursor with
  | .error e => .error e
  | .ok none => .ok cursor
  | .ok (some slot) => if slot ≤ now then latestFrom z s now slot else .ok cursor
termination_by (now - cursor).toNat
decreasing_by
  have := nextDue_gt _h
  omega

/-- `latest_due`. -/
def latestDue (z : TimeZone) (s : Schedule) (now : ℤ) : Except String ℤ :=
  match lookback s.frequency with
  | none => .error "off"
  | some n => latestFrom z s now (now - hours n)

/-! ## Slots -/

/-- The wall clock time matches the schedule. -/
def Matches (s : Schedule) (w : ℤ) : Prop :=
  match s.frequency with
  | .off => False
  | .hourly => w % hours 1 = minutes s.minute
  | _ => s.onDate (w / days 1) = true ∧ w % days 1 = s.timeOfDay

/-- The first instant of a wall clock time that matches the schedule. -/
def Slot (z : TimeZone) (s : Schedule) (t : ℤ) : Prop :=
  Matches s (z.wall t) ∧ z.First t

/-- The wall clock time the search ends before: four hours, or 370 dates. -/
def horizon (s : Schedule) (loc : ℤ) : ℤ :=
  match s.frequency with
  | .hourly => hours (loc / hours 1 + 4)
  | _ => days (loc / days 1 + 370)

/-- Some slot is after the instant and within the search. -/
def InHorizon (z : TimeZone) (s : Schedule) (t : ℤ) : Prop :=
  ∃ v, t < v ∧ Slot z s v ∧ z.wall v < horizon s (z.wall t)

/-! ## The search -/

theorem mem_candidates (hs : s.frequency ≠ .off) {loc w : ℤ} (h : loc < w) :
    w ∈ candidates s loc ↔ Matches s w ∧ w < horizon s loc := by
  have htime := s.timeOfDay_range
  have hminute := s.minute_range
  have hdates : w ∈ ((((List.range 370).map fun offset : ℕ => loc / days 1 + offset).filter
      s.onDate).map fun date => days date + s.timeOfDay) ↔
      (s.onDate (w / days 1) = true ∧ w % days 1 = s.timeOfDay) ∧
        w < days (loc / days 1 + 370) := by
    simp only [List.mem_map, List.mem_filter, List.mem_range]
    constructor
    · rintro ⟨date, ⟨⟨offset, hoffset, rfl⟩, hon⟩, rfl⟩
      have hdate : (days (loc / days 1 + offset) + s.timeOfDay) / days 1 = loc / days 1 + offset := by
        simp only [days, one_mul] at *
        omega
      refine ⟨⟨by rw [hdate]; exact hon, ?_⟩, ?_⟩
      · simp only [days, one_mul] at *
        omega
      · simp only [days, one_mul] at *
        omega
    · rintro ⟨⟨hon, hmod⟩, hlt⟩
      refine ⟨w / days 1, ⟨⟨(w / days 1 - loc / days 1).toNat, ?_, ?_⟩, hon⟩, ?_⟩
      · simp only [days, one_mul] at *
        omega
      · simp only [days, one_mul] at *
        omega
      · simp only [days, one_mul] at *
        omega
  rcases hfrequency : s.frequency with _ | _ | _ | _ | _
  · exact absurd hfrequency hs
  · simp only [candidates, Matches, horizon, hfrequency, List.mem_map, List.mem_range]
    constructor
    · rintro ⟨i, hi, rfl⟩
      simp only [hours, minutes, one_mul] at *
      constructor <;> omega
    · rintro ⟨hmod, hlt⟩
      refine ⟨(w / hours 1 - loc / hours 1).toNat, ?_, ?_⟩
      · simp only [hours, minutes, one_mul] at *
        omega
      · simp only [hours, minutes, one_mul] at *
        omega
  all_goals
    simp only [candidates, Matches, horizon, hfrequency]
    exact hdates

theorem candidates_sorted (s : Schedule) (loc : ℤ) : (candidates s loc).Pairwise (· < ·) := by
  have hdates : ((((List.range 370).map fun offset : ℕ => loc / days 1 + offset).filter
      s.onDate).map fun date => days date + s.timeOfDay).Pairwise (· < ·) := by
    have hoffsets : ((List.range 370).map fun offset : ℕ => loc / days 1 + offset).Pairwise (· < ·) :=
      List.pairwise_map.mpr (List.pairwise_lt_range.imp fun h => by omega)
    refine List.pairwise_map.mpr ((hoffsets.filter _).imp fun h => ?_)
    simp only [days]
    omega
  rw [candidates]
  split
  · refine List.pairwise_map.mpr (List.pairwise_lt_range.imp fun h => ?_)
    simp only [hours]
    omega
  · exact hdates

/-- Of the candidates the earliest slot is found. -/
theorem search_least {z : TimeZone} {after : ℤ} :
    ∀ {cs : List ℤ}, cs.Pairwise (· < ·) →
      ∀ {v : ℤ}, after < v → z.First v → z.wall v ∈ cs →
        ∃ d, search z after cs = some d ∧ d ≤ v
  | [], _, _, _, _, hmem => absurd hmem (List.not_mem_nil)
  | c :: cs, hsorted, v, hlt, hfirst, hmem => by
    rw [List.pairwise_cons] at hsorted
    cases haccept : accept z after c with
    | some d =>
      refine ⟨d, by rw [search, List.findSome?_cons, haccept], ?_⟩
      obtain ⟨-, hd, hwall⟩ := accept_eq_some.mp haccept
      rcases List.mem_cons.mp hmem with hc | hc
      · rw [accept_eq_some.mpr ⟨hlt, hfirst, hc⟩, Option.some.injEq] at haccept
        exact haccept.ge
      · have hbefore := hsorted.1 _ hc
        rw [← hwall] at hbefore
        exact (Zone.lt_of_wall_lt hd hbefore).le
    | none =>
      rcases List.mem_cons.mp hmem with hc | hc
      · rw [accept_eq_some.mpr ⟨hlt, hfirst, hc⟩] at haccept
        cases haccept
      · obtain ⟨d, hd, hle⟩ := search_least hsorted.2 hlt hfirst hc
        exact ⟨d, by rw [search, List.findSome?_cons, haccept]; exact hd, hle⟩

variable {z : TimeZone} {s : Schedule} {t d now : ℤ}

/-- What `next_due` returns is the least slot after the instant. -/
theorem nextDue_isLeast (h : nextDue z s t = .ok (some d)) :
    IsLeast {v | t < v ∧ Slot z s v} d ∧ z.wall d < horizon s (z.wall t) := by
  obtain ⟨hs, hsearch⟩ := nextDue_eq_some.mp h
  obtain ⟨hlt, hfirst, hmem⟩ := search_eq_some hsearch
  obtain ⟨hmatches, hhorizon⟩ := (mem_candidates hs (hfirst.lt hlt)).mp hmem
  refine ⟨⟨⟨hlt, hmatches, hfirst⟩, ?_⟩, hhorizon⟩
  rintro v ⟨htv, hmatches', hfirst'⟩
  by_cases hv : z.wall v < horizon s (z.wall t)
  · obtain ⟨d', hd', hle⟩ := search_least (candidates_sorted s _) htv hfirst'
      ((mem_candidates hs (hfirst'.lt htv)).mpr ⟨hmatches', hv⟩)
    rw [hsearch, Option.some.injEq] at hd'
    exact hd'.le.trans hle
  · exact (Zone.lt_of_wall_lt hfirst (by omega)).le

/-- `next_due` finds a slot when one is within the search. -/
theorem exists_nextDue_iff (hs : s.frequency ≠ .off) :
    (∃ d, nextDue z s t = .ok (some d)) ↔ InHorizon z s t := by
  constructor
  · rintro ⟨d, hd⟩
    obtain ⟨⟨⟨hlt, hslot⟩, -⟩, hhorizon⟩ := nextDue_isLeast hd
    exact ⟨d, hlt, hslot, hhorizon⟩
  · rintro ⟨v, hlt, ⟨hmatches, hfirst⟩, hhorizon⟩
    obtain ⟨d, hd, -⟩ := search_least (candidates_sorted s _) hlt hfirst
      ((mem_candidates hs (hfirst.lt hlt)).mpr ⟨hmatches, hhorizon⟩)
    exact ⟨d, nextDue_eq_some.mpr ⟨hs, hd⟩⟩

end AI2Apps.Todo
