import AI2Apps.Lib.TextOrder
import Mathlib.Order.Monotone.Basic
import Mathlib.Tactic.IntervalCases

/-!
# The proleptic Gregorian calendar, as a day count and as fields

A day is counted from 1 January of year 1, which has ordinal 1, and `ord2ymd`
turns the count into year, month and day by the usual division into cycles of
400, 100, 4 and 1 years.  The point of the file is that the fields, read in
order, compare exactly as the day counts do (`ord2ymd_lt_iff`).

* `daysBeforeYear`, `daysBeforeMonth`: the two cumulative counts.
* `ord2ymd`: the fields of an ordinal, with `ord2ymd_bounds` for their ranges.
* `ord2ymd_lt_iff`: the order of fields is the order of ordinals.
-/

namespace AI2Apps.Calendar

/-- Leap years of the Gregorian calendar. -/
def isLeap (year : ℕ) : Bool :=
  year % 4 == 0 && (year % 100 != 0 || year % 400 == 0)

/-- The number of days before 1 January of the given year. -/
def daysBeforeYear (year : ℕ) : ℕ :=
  (year - 1) * 365 + (year - 1) / 4 - (year - 1) / 100 + (year - 1) / 400

/-- The number of days of a year before the given month. -/
def daysBeforeMonth (leap : Bool) : ℕ → ℕ
  | 1 => 0
  | 2 => 31
  | 3 => 59 + leap.toNat
  | 4 => 90 + leap.toNat
  | 5 => 120 + leap.toNat
  | 6 => 151 + leap.toNat
  | 7 => 181 + leap.toNat
  | 8 => 212 + leap.toNat
  | 9 => 243 + leap.toNat
  | 10 => 273 + leap.toNat
  | 11 => 304 + leap.toNat
  | 12 => 334 + leap.toNat
  | _ => 365 + leap.toNat

/-- A date as its fields. -/
structure Ymd where
  year : ℕ
  month : ℕ
  day : ℕ
  deriving DecidableEq, Repr

/-- Fields compare from the year down. -/
def Ymd.Before (d e : Ymd) : Prop :=
  d.year < e.year ∨ d.year = e.year ∧ (d.month < e.month ∨ d.month = e.month ∧ d.day < e.day)

/-- The month containing day `n` (counted from 0) of a year. -/
def monthOf (leap : Bool) (n : ℕ) : ℕ :=
  -- the estimate is exact or one too large
  let month := (n + 50) / 32
  if daysBeforeMonth leap month > n then month - 1 else month

/-- Month and day of day `n` (counted from 0) of a year. -/
def monthDay (leap : Bool) (n : ℕ) : ℕ × ℕ :=
  (monthOf leap n, n - daysBeforeMonth leap (monthOf leap n) + 1)

/-- The year and the day of the year (counted from 0) of an ordinal, by cycles
of 400, 100, 4 and 1 years.  The last day of a 4- or 400-year cycle would start
a year too many, so it is put back at the end of the year before. -/
def yearDay (ordinal : ℕ) : ℕ × ℕ :=
  let n := ordinal - 1
  let n400 := n / 146097
  let n := n % 146097
  let n100 := n / 36524
  let n := n % 36524
  let n4 := n / 1461
  let n := n % 1461
  let n1 := n / 365
  let n := n % 365
  let year := n400 * 400 + 1 + n100 * 100 + n4 * 4 + n1
  if n1 = 4 ∨ n100 = 4 then (year - 1, 365) else (year, n)

/-- The fields of an ordinal. -/
def ord2ymd (ordinal : ℕ) : Ymd :=
  let year := (yearDay ordinal).1
  let md := monthDay (isLeap year) (yearDay ordinal).2
  ⟨year, md.1, md.2⟩

/-! ## Locating the year -/

theorem daysBeforeYear_succ {year : ℕ} (h : 1 ≤ year) :
    daysBeforeYear (year + 1) = daysBeforeYear year + 365 + (isLeap year).toNat := by
  obtain ⟨n, rfl⟩ := Nat.exists_eq_add_of_le' h
  have hle : n / 100 ≤ n / 4 := by omega
  have hdvd (k : ℕ) : ((n + 1) % k == 0) = decide (k ∣ n + 1) := by
    rw [Bool.eq_iff_iff, beq_iff_eq, decide_eq_true_iff, Nat.dvd_iff_mod_eq_zero]
  simp only [daysBeforeYear, Nat.add_sub_cancel, Nat.succ_div, isLeap, bne, hdvd]
  by_cases h4 : 4 ∣ n + 1
  · by_cases h100 : 100 ∣ n + 1
    · by_cases h400 : 400 ∣ n + 1
      · simp only [h4, h100, h400, if_true, decide_true, Bool.not_true, Bool.false_or,
          Bool.and_self, Bool.toNat_true]
        omega
      · simp only [h4, h100, h400, if_true, if_false, decide_true, decide_false, Bool.not_true,
          Bool.or_self, Bool.and_false, Bool.toNat_false]
        omega
    · have h400 : ¬ 400 ∣ n + 1 := fun hd => h100 (dvd_trans (by decide) hd)
      simp only [h4, h100, h400, if_true, if_false, decide_true, decide_false, Bool.not_false,
        Bool.true_or, Bool.and_self, Bool.toNat_true]
      omega
  · have h100 : ¬ 100 ∣ n + 1 := fun hd => h4 (dvd_trans (by decide) hd)
    have h400 : ¬ 400 ∣ n + 1 := fun hd => h4 (dvd_trans (by decide) hd)
    simp only [h4, h100, h400, if_false, decide_false, Bool.false_and, Bool.toNat_false]
    omega

theorem daysBeforeYear_mono : Monotone daysBeforeYear := by
  refine monotone_nat_of_le_succ fun year => ?_
  rcases Nat.eq_zero_or_pos year with rfl | h
  · decide
  · rw [daysBeforeYear_succ h]
    omega

/-- The days before a year given by its position in the cycles. -/
theorem daysBeforeYear_cycles {c d e f : ℕ} (hd : d ≤ 3) (he : e ≤ 24) (hf : f ≤ 3) :
    daysBeforeYear (c * 400 + 1 + d * 100 + e * 4 + f) =
      c * 146097 + d * 36524 + e * 1461 + f * 365 := by
  have h4 : (c * 400 + 1 + d * 100 + e * 4 + f - 1) / 4 = c * 100 + d * 25 + e := by omega
  have h100 : (c * 400 + 1 + d * 100 + e * 4 + f - 1) / 100 = c * 4 + d := by omega
  have h400 : (c * 400 + 1 + d * 100 + e * 4 + f - 1) / 400 = c := by omega
  rw [daysBeforeYear, h4, h100, h400]
  omega

/-- Only the last year of a 4-year cycle is leap, and the last cycle of a
century has none unless the century closes a 400-year cycle. -/
theorem isLeap_cycles {c d e f : ℕ} (hd : d ≤ 3) (he : e ≤ 24) (hf : f ≤ 3) :
    isLeap (c * 400 + 1 + d * 100 + e * 4 + f) = (f == 3 && (e != 24 || d == 3)) := by
  have h4 : (c * 400 + 1 + d * 100 + e * 4 + f) % 4 = (1 + f) % 4 := by omega
  have h100 : (c * 400 + 1 + d * 100 + e * 4 + f) % 100 = (1 + e * 4 + f) % 100 := by omega
  have h400 : (c * 400 + 1 + d * 100 + e * 4 + f) % 400 = (1 + d * 100 + e * 4 + f) % 400 := by
    omega
  rw [isLeap, h4, h100, h400, Bool.eq_iff_iff]
  simp only [Bool.and_eq_true, Bool.or_eq_true, beq_iff_eq, bne_iff_ne, ne_eq]
  omega

/-- Every ordinal is one day of the year `yearDay` names. -/
theorem yearDay_spec {ordinal : ℕ} (h : 1 ≤ ordinal) :
    1 ≤ (yearDay ordinal).1 ∧
      daysBeforeYear (yearDay ordinal).1 + (yearDay ordinal).2 + 1 = ordinal ∧
      (yearDay ordinal).2 < 365 + (isLeap (yearDay ordinal).1).toNat := by
  unfold yearDay
  dsimp only
  generalize hn : ordinal - 1 = n
  generalize hc : n / 146097 = c
  generalize hr₁ : n % 146097 = r₁
  generalize hd : r₁ / 36524 = d
  generalize hr₂ : r₁ % 36524 = r₂
  generalize he : r₂ / 1461 = e
  generalize hr₃ : r₂ % 1461 = r₃
  generalize hf : r₃ / 365 = f
  generalize hr₄ : r₃ % 365 = r₄
  by_cases hspecial : f = 4 ∨ d = 4
  · rw [if_pos hspecial]
    dsimp only
    rcases hspecial with rfl | rfl
    · -- 31 December of a leap year closing a 4-year cycle
      have hd3 : d ≤ 3 := by omega
      have he24 : e ≤ 24 := by omega
      have hyear : c * 400 + 1 + d * 100 + e * 4 + 4 - 1 = c * 400 + 1 + d * 100 + e * 4 + 3 := by
        omega
      have hleap : (e != 24 || d == 3) = true := by
        simp only [Bool.or_eq_true, bne_iff_ne, ne_eq, beq_iff_eq]
        omega
      rw [hyear, daysBeforeYear_cycles hd3 he24 (by omega), isLeap_cycles hd3 he24 (by omega), hleap]
      refine ⟨by omega, by omega, by decide⟩
    · -- 31 December closing a 400-year cycle
      have he0 : e = 0 := by omega
      have hf0 : f = 0 := by omega
      have hyear : c * 400 + 1 + 4 * 100 + e * 4 + f - 1 = c * 400 + 1 + 3 * 100 + 24 * 4 + 3 := by
        omega
      rw [hyear, daysBeforeYear_cycles (by omega) (by omega) (by omega),
        isLeap_cycles (by omega) (by omega) (by omega)]
      refine ⟨by omega, by omega, by decide⟩
  · rw [if_neg hspecial]
    dsimp only
    have hd3 : d ≤ 3 := by omega
    have he24 : e ≤ 24 := by omega
    have hf3 : f ≤ 3 := by omega
    rw [daysBeforeYear_cycles hd3 he24 hf3]
    refine ⟨by omega, by omega, by omega⟩

/-! ## Locating the month -/

/-- A month ends within 31 days. -/
theorem daysBeforeMonth_step (leap : Bool) {m : ℕ} (h1 : 1 ≤ m) (h12 : m ≤ 12) :
    daysBeforeMonth leap m ≤ daysBeforeMonth leap (m + 1) ∧
      daysBeforeMonth leap (m + 1) ≤ daysBeforeMonth leap m + 31 := by
  have hleap := leap.toNat_le
  interval_cases m <;> simp only [daysBeforeMonth, Nat.reduceAdd] <;> omega

theorem daysBeforeMonth_mono (leap : Bool) {m m' : ℕ} (hm : 1 ≤ m) (h : m ≤ m')
    (hm' : m' ≤ 13) : daysBeforeMonth leap m ≤ daysBeforeMonth leap m' := by
  induction m', h using Nat.le_induction with
  | base => exact le_rfl
  | succ k hk ih =>
    have hstep := daysBeforeMonth_step leap (show 1 ≤ k by omega) (by omega)
    exact (ih (by omega)).trans hstep.1

/-- The estimate `(n + 50) / 32` is the month of day `n` or the one after it. -/
theorem estimate_spec (leap : Bool) {n : ℕ} (h : n < 365 + leap.toNat) :
    n < daysBeforeMonth leap ((n + 50) / 32 + 1) ∧
      (daysBeforeMonth leap ((n + 50) / 32) > n →
        1 < (n + 50) / 32 ∧ daysBeforeMonth leap ((n + 50) / 32 - 1) ≤ n) := by
  have hleap := leap.toNat_le
  have hlow : 1 ≤ (n + 50) / 32 := by omega
  have hhigh : (n + 50) / 32 ≤ 12 := by omega
  generalize hm : (n + 50) / 32 = m at hlow hhigh ⊢
  interval_cases m <;> simp only [daysBeforeMonth, Nat.reduceAdd, Nat.reduceSub] <;> omega

/-- Every day of a year is one day of the month `monthOf` names. -/
theorem monthOf_spec (leap : Bool) {n : ℕ} (h : n < 365 + leap.toNat) :
    1 ≤ monthOf leap n ∧ monthOf leap n ≤ 12 ∧ daysBeforeMonth leap (monthOf leap n) ≤ n ∧
      n < daysBeforeMonth leap (monthOf leap n + 1) ∧
      daysBeforeMonth leap (monthOf leap n + 1) ≤ daysBeforeMonth leap (monthOf leap n) + 31 := by
  have hleap := leap.toNat_le
  have hlow : 1 ≤ (n + 50) / 32 := by omega
  have hhigh : (n + 50) / 32 ≤ 12 := by omega
  obtain ⟨hlt, hback⟩ := estimate_spec leap h
  by_cases hover : daysBeforeMonth leap ((n + 50) / 32) > n
  · obtain ⟨h1, hle⟩ := hback hover
    have hmonth : monthOf leap n = (n + 50) / 32 - 1 := if_pos hover
    have hnext : (n + 50) / 32 - 1 + 1 = (n + 50) / 32 := by omega
    have hstep := daysBeforeMonth_step leap (show 1 ≤ (n + 50) / 32 - 1 by omega) (by omega)
    rw [hnext] at hstep
    rw [hmonth, hnext]
    exact ⟨by omega, by omega, hle, hover, hstep.2⟩
  · have hmonth : monthOf leap n = (n + 50) / 32 := if_neg hover
    rw [hmonth]
    exact ⟨hlow, hhigh, not_lt.mp hover, hlt, (daysBeforeMonth_step leap hlow hhigh).2⟩

/-- Month and day stay within two decimal digits. -/
theorem monthDay_bounds (leap : Bool) {n : ℕ} (h : n < 365 + leap.toNat) :
    (monthDay leap n).1 ≤ 12 ∧ (monthDay leap n).2 ≤ 31 := by
  obtain ⟨-, h12, hle, hlt, h31⟩ := monthOf_spec leap h
  refine ⟨h12, ?_⟩
  simp only [monthDay]
  omega

/-- Within one year, month and day compare as the days of the year do. -/
theorem monthDay_lt_iff (leap : Bool) {n n' : ℕ} (h : n < 365 + leap.toNat)
    (h' : n' < 365 + leap.toNat) :
    ((monthDay leap n).1 < (monthDay leap n').1 ∨
      (monthDay leap n).1 = (monthDay leap n').1 ∧ (monthDay leap n).2 < (monthDay leap n').2) ↔
      n < n' := by
  obtain ⟨hm1, hm12, hle, hlt, -⟩ := monthOf_spec leap h
  obtain ⟨hm1', hm12', hle', hlt', -⟩ := monthOf_spec leap h'
  simp only [monthDay]
  constructor
  · rintro (hm | ⟨hm, hd⟩)
    · have := daysBeforeMonth_mono leap (by omega) (show monthOf leap n + 1 ≤ monthOf leap n' from hm)
        (by omega)
      omega
    · rw [hm] at hd hle
      omega
  · intro hn
    rcases lt_trichotomy (monthOf leap n) (monthOf leap n') with hm | hm | hm
    · exact Or.inl hm
    · refine Or.inr ⟨hm, ?_⟩
      rw [hm] at hle ⊢
      omega
    · have := daysBeforeMonth_mono leap (by omega) (show monthOf leap n' + 1 ≤ monthOf leap n from hm)
        (by omega)
      omega

/-! ## The order of dates -/

/-- **Dates compare as ordinals.** -/
theorem ord2ymd_lt_iff {a b : ℕ} (ha : 1 ≤ a) (hb : 1 ≤ b) :
    (ord2ymd a).Before (ord2ymd b) ↔ a < b := by
  obtain ⟨hya, hea, hda⟩ := yearDay_spec ha
  obtain ⟨hyb, heb, hdb⟩ := yearDay_spec hb
  -- a later year starts after every day of an earlier one
  have later : ∀ {y y' n : ℕ}, 1 ≤ y → y < y' → n < 365 + (isLeap y).toNat →
      daysBeforeYear y + n < daysBeforeYear y' := by
    intro y y' n hy hyy hn
    have h1 := daysBeforeYear_mono (show y + 1 ≤ y' from hyy)
    rw [daysBeforeYear_succ hy] at h1
    omega
  simp only [Ymd.Before, ord2ymd]
  rcases lt_trichotomy (yearDay a).1 (yearDay b).1 with hy | hy | hy
  · have := later hya hy hda
    exact ⟨fun _ => by omega, fun _ => Or.inl hy⟩
  · rw [hy] at hea hda ⊢
    have hmd := monthDay_lt_iff (isLeap (yearDay b).1) hda hdb
    constructor
    · rintro (h | ⟨-, h⟩)
      · exact absurd h (lt_irrefl _)
      · have := hmd.mp h
        omega
    · exact fun h => Or.inr ⟨rfl, hmd.mpr (by omega)⟩
  · have := later hyb hy hdb
    constructor
    · rintro (h | ⟨h, -⟩)
      · omega
      · omega
    · exact fun h => by omega

/-- The fields of an ordinal before year 10000 fit four, two and two digits. -/
theorem ord2ymd_bounds {a : ℕ} (h1 : 1 ≤ a) (h2 : a ≤ 3652059) :
    (ord2ymd a).year < 10000 ∧ (ord2ymd a).month < 100 ∧ (ord2ymd a).day < 100 := by
  obtain ⟨hy, he, hd⟩ := yearDay_spec h1
  obtain ⟨hm, hday⟩ := monthDay_bounds _ hd
  refine ⟨?_, by simp only [ord2ymd]; omega, by simp only [ord2ymd]; omega⟩
  by_contra hcon
  have hmono := daysBeforeYear_mono (show 10000 ≤ (yearDay a).1 by simpa [ord2ymd] using hcon)
  have h0 : daysBeforeYear 10000 = 3652059 := by decide
  omega

end AI2Apps.Calendar
