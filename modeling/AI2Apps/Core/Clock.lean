import AI2Apps.Lib.Calendar

/-!
# Canonical UTC timestamps

The datetimes of `core/clock.py` and the two texts durable records hold for
them: `isoformat`, which drops a zero fraction and ends in `+00:00`, and
`formatUtc`, which always prints six fractional digits and ends in `Z`.  The
replay table compares one against the other as text, and
`isoformat_lt_formatUtc_iff` says what that comparison decides.

* `DateTime`: an aware UTC datetime of the years 1 to 9999.
* `fromtimestamp`, `epochSeconds`: whole POSIX seconds in and out.
* `stamp_lt_iff`: the text of a second compares as the second.
-/

namespace AI2Apps.Clock

open TextOrder Calendar

/-- An aware UTC datetime, as microseconds since 1 January of year 1.  The
language's datetimes end with year 9999. -/
structure DateTime where
  micros : ℕ
  inRange : micros < 3652059 * 86400 * 1000000
  deriving DecidableEq

theorem DateTime.zero_inRange : 0 < 3652059 * 86400 * 1000000 := by decide

/-- Whole seconds since 1 January of year 1. -/
def DateTime.seconds (d : DateTime) : ℕ := d.micros / 1000000

/-- The fraction of the second, in microseconds. -/
def DateTime.microsecond (d : DateTime) : ℕ := d.micros % 1000000

/-- The seconds from 1 January of year 1 to the POSIX epoch. -/
def epochOffset : ℤ := 719162 * 86400

/-- `int(datetime.timestamp())`: POSIX seconds, rounded down. -/
def DateTime.epochSeconds (d : DateTime) : ℤ := d.seconds - epochOffset

/-- `datetime.fromtimestamp(timestamp, UTC)` for an integer; out of range it raises. -/
def fromtimestamp (timestamp : ℤ) : Option DateTime :=
  if h : 0 ≤ timestamp + epochOffset ∧ timestamp + epochOffset < 3652059 * 86400 then
    some ⟨(timestamp + epochOffset).toNat * 1000000, by omega⟩
  else none

/-- `YYYY-MM-DDTHH:MM:SS` of a second, followed by the given text. -/
def stamp (seconds : ℕ) (rest : Str) : Str :=
  let date := ord2ymd (seconds / 86400 + 1)
  let ofDay := seconds % 86400
  decimal 4 date.year ++ 45 :: (decimal 2 date.month ++ 45 :: (decimal 2 date.day ++ 84 ::
    (decimal 2 (ofDay / 3600) ++ 58 :: (decimal 2 (ofDay % 3600 / 60) ++ 58 ::
      (decimal 2 (ofDay % 60) ++ rest)))))

/-- `datetime.isoformat()` of a UTC datetime: a zero fraction is not printed. -/
def DateTime.isoformat (d : DateTime) : Str :=
  stamp d.seconds
    (if d.microsecond = 0 then str "+00:00" else 46 :: (decimal 6 d.microsecond ++ str "+00:00"))

/-- Format a datetime as RFC 3339 UTC with microsecond precision. -/
def formatUtc (value : DateTime) : Str :=
  stamp value.seconds (46 :: (decimal 6 value.microsecond ++ str "Z"))

/-- `datetime + timedelta`; past year 9999 it raises. -/
def DateTime.add (d : DateTime) (micros : ℕ) : Option DateTime :=
  if h : d.micros + micros < 3652059 * 86400 * 1000000 then some ⟨d.micros + micros, h⟩ else none

/-! ## Text order -/

theorem DateTime.seconds_lt (d : DateTime) : d.seconds < 3652059 * 86400 := by
  have h := d.inRange
  unfold DateTime.seconds
  omega

theorem ord2ymd_inj {a b : ℕ} (ha : 1 ≤ a) (hb : 1 ≤ b) (h : ord2ymd a = ord2ymd b) : a = b := by
  have hirr : ¬ (ord2ymd b).Before (ord2ymd b) := by rw [ord2ymd_lt_iff hb hb]; omega
  rcases lt_trichotomy a b with hab | hab | hab
  · exact absurd (h ▸ (ord2ymd_lt_iff ha hb).mpr hab) hirr
  · exact hab
  · exact absurd (h ▸ (ord2ymd_lt_iff hb ha).mpr hab) hirr

/-- **The text of a second compares as the second**, and only then as what follows. -/
theorem stamp_lt_iff {s t : ℕ} {r r' : Str} (hs : s < 3652059 * 86400) (ht : t < 3652059 * 86400) :
    stamp s r < stamp t r' ↔ s < t ∨ s = t ∧ r < r' := by
  have hs1 : 1 ≤ s / 86400 + 1 := by omega
  have ht1 : 1 ≤ t / 86400 + 1 := by omega
  obtain ⟨hys, hms, hds⟩ := ord2ymd_bounds hs1 (by omega)
  obtain ⟨hyt, hmt, hdt⟩ := ord2ymd_bounds ht1 (by omega)
  have hdate := ord2ymd_lt_iff hs1 ht1
  have hinj := ord2ymd_inj hs1 ht1
  have hofDay : ∀ u : ℕ, u % 86400 / 3600 < 10 ^ 2 ∧ u % 86400 % 3600 / 60 < 10 ^ 2 ∧
      u % 86400 % 60 < 10 ^ 2 := fun u => by omega
  obtain ⟨hhs, hns, hss⟩ := hofDay s
  obtain ⟨hht, hnt, hst⟩ := hofDay t
  simp only [stamp]
  rw [decimal_append_lt_iff (by omega) (by omega), cons_lt_cons_same,
    decimal_append_lt_iff (by omega) (by omega), cons_lt_cons_same,
    decimal_append_lt_iff (by omega) (by omega), cons_lt_cons_same,
    decimal_append_lt_iff hhs hht, cons_lt_cons_same,
    decimal_append_lt_iff hns hnt, cons_lt_cons_same, decimal_append_lt_iff hss hst]
  -- the date fields decide the day, the time fields the second of the day
  rcases lt_trichotomy (s / 86400) (t / 86400) with hday | hday | hday
  · have hbefore := hdate.mpr (by omega)
    simp only [Ymd.Before] at hbefore
    refine iff_of_true ?_ (Or.inl (by omega))
    rcases hbefore with h | ⟨h, h' | ⟨h', h''⟩⟩
    · exact Or.inl h
    · exact Or.inr ⟨h, Or.inl h'⟩
    · exact Or.inr ⟨h, Or.inr ⟨h', Or.inl h''⟩⟩
  · rw [hday]
    simp only [lt_irrefl, false_or, true_and]
    generalize hrr : (r < r') = R
    by_cases hR : R
    · simp only [hR, and_true]
      omega
    · simp only [hR, and_false, or_false]
      omega
  · have hnot : ¬ (ord2ymd (s / 86400 + 1)).Before (ord2ymd (t / 86400 + 1)) := by
      rw [hdate]
      omega
    have hne : ord2ymd (s / 86400 + 1) ≠ ord2ymd (t / 86400 + 1) := fun h => by
      have := hinj h
      omega
    refine iff_of_false ?_ (by omega)
    rintro (h | ⟨h, h' | ⟨h', h'' | ⟨h'', -⟩⟩⟩)
    · exact hnot (Or.inl h)
    · exact hnot (Or.inr ⟨h, Or.inl h'⟩)
    · exact hnot (Or.inr ⟨h, Or.inr ⟨h', h''⟩⟩)
    · exact hne (by
        cases hu : ord2ymd (s / 86400 + 1)
        cases hv : ord2ymd (t / 86400 + 1)
        simp_all)

/-- A whole POSIX second keeps its value and has no fraction. -/
theorem fromtimestamp_spec {timestamp : ℤ} {d : DateTime} (h : fromtimestamp timestamp = some d) :
    d.epochSeconds = timestamp ∧ d.microsecond = 0 := by
  unfold fromtimestamp at h
  split_ifs at h with hr
  obtain rfl := (Option.some.inj h).symm
  simp only [DateTime.epochSeconds, DateTime.seconds, DateTime.microsecond]
  omega

/-- **What the text comparison of the replay table decides.**  A whole second
printed by `isoformat` is smaller than the canonical text of `now` from the very
second it names on: at equal seconds `+` sorts before `.`. -/
theorem isoformat_lt_formatUtc_iff {d now : DateTime} (h : d.microsecond = 0) :
    d.isoformat < formatUtc now ↔ d.epochSeconds ≤ now.epochSeconds := by
  have hsuffix : str "+00:00" < 46 :: (decimal 6 now.microsecond ++ str "Z") := by
    have hplus : str "+00:00" = 43 :: str "00:00" := by decide
    rw [hplus, List.cons_lt_cons_iff]
    exact Or.inl (by decide)
  rw [DateTime.isoformat, formatUtc, if_pos h, stamp_lt_iff d.seconds_lt now.seconds_lt]
  simp only [hsuffix, and_true, DateTime.epochSeconds]
  omega

end AI2Apps.Clock
