import Mathlib.Tactic.IntervalCases

/-!
This module contains the proleptic Gregorian calendar: its dates, each with the one that follows it,
the date of a day counted from 1970-01-01, and the number of the day of a date.
-/

namespace Gregorian

def IsLeapYear (year : Int) : Prop := year % 4 = 0 ∧ (year % 100 ≠ 0 ∨ year % 400 = 0)

instance (year : Int) : Decidable (IsLeapYear year) :=
  inferInstanceAs (Decidable (_ ∧ _))

def daysInMonth (year : Int) : Nat → Int
  | 1 => if IsLeapYear year then 29 else 28
  | 3 | 5 | 8 | 10 => 30
  | _ => 31

@[ext]
structure Date where
  year : Int
  month : Nat
  day : Int
  month_lt : month < 12
  day_pos : 1 ≤ day
  day_le : day ≤ daysInMonth year month

theorem daysInMonth_bounds (year : Int) (month : Nat)
    : 28 ≤ daysInMonth year month ∧ daysInMonth year month ≤ 31 := by
  unfold daysInMonth
  split
  . split <;> decide
  all_goals decide

namespace Date

def epoch : Date where
  year := 1970
  month := 0
  day := 1
  month_lt := by decide
  day_pos := by decide
  day_le := by decide

def next (d : Date) : Date :=
  if hday : d.day < daysInMonth d.year d.month then
    { d with
      day := d.day + 1
      day_pos := Int.le_add_one d.day_pos
      day_le := hday }
  else if hmonth : d.month + 1 < 12 then
    { year := d.year
      month := d.month + 1
      day := 1
      month_lt := hmonth
      day_pos := le_rfl
      day_le := le_trans (by decide) (daysInMonth_bounds d.year (d.month + 1)).left }
  else
    { year := d.year + 1
      month := 0
      day := 1
      month_lt := by decide
      day_pos := le_rfl
      day_le := le_trans (by decide) (daysInMonth_bounds (d.year + 1) 0).left }

def prev (d : Date) : Date :=
  if hday : 1 < d.day then
    { d with
      day := d.day - 1
      day_pos := Int.le_sub_one_of_lt hday
      day_le := le_trans (Int.sub_le_self d.day (by decide)) d.day_le }
  else if 0 < d.month then
    { year := d.year
      month := d.month - 1
      day := daysInMonth d.year (d.month - 1)
      month_lt := lt_of_le_of_lt (Nat.sub_le d.month 1) d.month_lt
      day_pos := le_trans (by decide) (daysInMonth_bounds d.year (d.month - 1)).left
      day_le := le_rfl }
  else
    { year := d.year - 1
      month := 11
      day := daysInMonth (d.year - 1) 11
      month_lt := by decide
      day_pos := le_trans (by decide) (daysInMonth_bounds (d.year - 1) 11).left
      day_le := le_rfl }

end Date

def dateOfDay : Int → Date
  | .ofNat n => Date.next^[n] Date.epoch
  | .negSucc n => Date.prev^[n + 1] Date.epoch

def weekdayOfDay (n : Int) : Int := (n + 4) % 7

def firstDayOfMonth (year : Int) : Nat → Int
  | 0 => 0
  | month + 1 => firstDayOfMonth year month + daysInMonth year month

def daysInYear (year : Int) : Int := firstDayOfMonth year 12

def firstDayOfYear (year : Int) : Int :=
  365 * (year - 1970) + (year - 1969) / 4 - (year - 1901) / 100 + (year - 1601) / 400

def Date.dayOfYear (d : Date) : Int := firstDayOfMonth d.year d.month + (d.day - 1)

def Date.dayNumber (d : Date) : Int := firstDayOfYear d.year + d.dayOfYear

def monthStart (february : Int) : Nat → Int
  | 0 => 0
  | 1 => 31
  | 2 => 31 + february
  | 3 => 62 + february
  | 4 => 92 + february
  | 5 => 123 + february
  | 6 => 153 + february
  | 7 => 184 + february
  | 8 => 215 + february
  | 9 => 245 + february
  | 10 => 276 + february
  | 11 => 306 + february
  | _ => 337 + february

theorem firstDayOfMonth_eq_monthStart {year february : Int} {month : Nat}
    (hfebruary : daysInMonth year 1 = february) (h : month ≤ 12)
    : firstDayOfMonth year month = monthStart february month := by
  have hfixed : daysInMonth year 0 = 31 := rfl
  interval_cases month <;> simp only [firstDayOfMonth, hfebruary, monthStart]
  all_goals
    simp only [daysInMonth]
    omega

theorem daysInYear_eq (year : Int) : daysInYear year = if IsLeapYear year then 366 else 365 := by
  rw [daysInYear, firstDayOfMonth_eq_monthStart rfl le_rfl]
  simp only [monthStart, daysInMonth]
  split <;> rfl

theorem firstDayOfYear_succ (year : Int)
    : firstDayOfYear (year + 1) = firstDayOfYear year + daysInYear year := by
  rw [daysInYear_eq]
  unfold firstDayOfYear
  by_cases hleap : IsLeapYear year
  . rw [if_pos hleap]
    unfold IsLeapYear at hleap
    omega
  rw [if_neg hleap]
  unfold IsLeapYear at hleap
  omega

theorem firstDayOfMonth_mono (year : Int) {month month' : Nat} (h : month ≤ month')
    : firstDayOfMonth year month ≤ firstDayOfMonth year month' := by
  induction month', h using Nat.le_induction with
  | base => exact le_rfl
  | succ m _ ih =>
    have := (daysInMonth_bounds year m).left
    rw [firstDayOfMonth]
    omega

theorem firstDayOfYear_bounds (year : Int)
    : 146097 * (year - 1970) - 800 < 400 * firstDayOfYear year
        ∧ 400 * firstDayOfYear year < 146097 * (year - 1970) + 800 := by
  unfold firstDayOfYear
  omega

theorem firstDayOfYear_mono {year year' : Int} (h : year ≤ year')
    : firstDayOfYear year ≤ firstDayOfYear year' := by
  unfold firstDayOfYear
  omega

theorem Date.dayNumber_epoch : Date.epoch.dayNumber = 0 := by decide

theorem Date.dayNumber_next (d : Date) : d.next.dayNumber = d.dayNumber + 1 := by
  have hday := d.day_le
  unfold next dayNumber dayOfYear
  split
  next =>
    dsimp only
    omega
  next hlast =>
  split
  next =>
    dsimp only
    rw [firstDayOfMonth]
    omega
  next hmonth =>
    have hdecember : d.month + 1 = 12 := by
      have := d.month_lt
      omega
    have hyear : daysInYear d.year = firstDayOfMonth d.year d.month + daysInMonth d.year d.month := by
      rw [daysInYear, ← hdecember, firstDayOfMonth]
    dsimp only
    rw [firstDayOfYear_succ, hyear, firstDayOfMonth]
    omega

theorem Date.dayNumber_prev (d : Date) : d.prev.dayNumber = d.dayNumber - 1 := by
  have hday := d.day_pos
  unfold prev dayNumber dayOfYear
  split
  next =>
    dsimp only
    omega
  next hfirst =>
  split
  next hmonth =>
    have hsucc : firstDayOfMonth d.year (d.month - 1 + 1)
        = firstDayOfMonth d.year (d.month - 1) + daysInMonth d.year (d.month - 1) := rfl
    rw [Nat.sub_add_cancel hmonth] at hsucc
    dsimp only
    omega
  next hmonth =>
    have hjanuary : d.month = 0 := by omega
    have hyear := firstDayOfYear_succ (d.year - 1)
    rw [Int.sub_add_cancel] at hyear
    have hdays : daysInYear (d.year - 1) = firstDayOfMonth (d.year - 1) 11 + daysInMonth (d.year - 1) 11 := by
      rw [daysInYear, firstDayOfMonth]
    dsimp only
    rw [hjanuary, firstDayOfMonth]
    omega

theorem Date.dayNumber_iterate_next (n : Nat) (d : Date)
    : (Date.next^[n] d).dayNumber = d.dayNumber + n := by
  induction n with
  | zero => exact (Int.add_zero _).symm
  | succ n ih =>
    rw [Function.iterate_succ_apply', dayNumber_next, ih]
    omega

theorem Date.dayNumber_iterate_prev (n : Nat) (d : Date)
    : (Date.prev^[n] d).dayNumber = d.dayNumber - n := by
  induction n with
  | zero => exact (Int.sub_zero _).symm
  | succ n ih =>
    rw [Function.iterate_succ_apply', dayNumber_prev, ih]
    omega

theorem dayNumber_dateOfDay (n : Int) : (dateOfDay n).dayNumber = n := by
  cases n with
  | ofNat n =>
    rw [dateOfDay, Date.dayNumber_iterate_next, Date.dayNumber_epoch]
    exact Int.zero_add _
  | negSucc n =>
    rw [dateOfDay, Date.dayNumber_iterate_prev, Date.dayNumber_epoch]
    omega

theorem Date.dayOfYear_nonneg (d : Date) : 0 ≤ d.dayOfYear := by
  have hpos := d.day_pos
  have hfirst := firstDayOfMonth_mono d.year (Nat.zero_le d.month)
  rw [firstDayOfMonth] at hfirst
  unfold dayOfYear
  omega

theorem Date.dayOfYear_lt (d : Date) : d.dayOfYear < daysInYear d.year := by
  have hle := d.day_le
  have hlast := firstDayOfMonth_mono d.year (Nat.succ_le_of_lt d.month_lt)
  rw [Nat.succ_eq_add_one, firstDayOfMonth] at hlast
  unfold dayOfYear daysInYear
  omega

theorem Date.month_eq_of_bounds (d : Date) (month : Nat) (hlow : firstDayOfMonth d.year month ≤ d.dayOfYear)
    (hhigh : d.dayOfYear < firstDayOfMonth d.year (month + 1))
    : d.month = month := by
  have hle := d.day_le
  have hpos := d.day_pos
  unfold dayOfYear at *
  rcases lt_trichotomy d.month month with hlt | heq | hgt
  . have hmono := firstDayOfMonth_mono d.year (Nat.succ_le_of_lt hlt)
    rw [Nat.succ_eq_add_one, firstDayOfMonth] at hmono
    omega
  . exact heq
  . have hmono := firstDayOfMonth_mono d.year (Nat.succ_le_of_lt hgt)
    rw [Nat.succ_eq_add_one] at hmono
    omega

theorem Date.monthDay_eq_of_bounds (d : Date) (month : Nat) {first next : Int}
    (hfirst : firstDayOfMonth d.year month = first)
    (hnext : firstDayOfMonth d.year (month + 1) = next) (hlow : first ≤ d.dayOfYear) (hhigh : d.dayOfYear < next)
    : d.month = month ∧ d.day = d.dayOfYear - first + 1 := by
  have hmonth : d.month = month := by
    apply d.month_eq_of_bounds month
    . rw [hfirst]
      exact hlow
    . rw [hnext]
      exact hhigh
  constructor
  . exact hmonth
  . rw [dayOfYear, hmonth, hfirst]
    omega

theorem Date.exists_monthStart (d : Date) (hfebruary : daysInMonth d.year 1 = february)
    : ∃ month < 12, monthStart february month ≤ d.dayOfYear ∧ d.dayOfYear < monthStart february (month + 1)
      ∧ 28 ≤ february ∧ d.month = month ∧ d.day = d.dayOfYear - monthStart february month + 1 := by
  have hpos := d.day_pos
  have hle := d.day_le
  have hbounds := daysInMonth_bounds d.year 1
  have hnext : firstDayOfMonth d.year (d.month + 1) = firstDayOfMonth d.year d.month + daysInMonth d.year d.month := rfl
  refine ⟨d.month, d.month_lt, ?_⟩
  rw [← firstDayOfMonth_eq_monthStart hfebruary d.month_lt.le, ← firstDayOfMonth_eq_monthStart hfebruary d.month_lt,
    hnext, dayOfYear]
  omega

theorem year_eq_of_bounds {d : Date} {year : Int} (hlow : firstDayOfYear year ≤ d.dayNumber)
    (hhigh : d.dayNumber < firstDayOfYear (year + 1))
    : d.year = year := by
  have hpos := d.dayOfYear_nonneg
  have hlt := d.dayOfYear_lt
  have hsucc := firstDayOfYear_succ d.year
  unfold Date.dayNumber at *
  rcases lt_trichotomy d.year year with hlt | heq | hgt
  . have := firstDayOfYear_mono (Int.add_one_le_of_lt hlt)
    omega
  . exact heq
  . have := firstDayOfYear_mono (Int.add_one_le_of_lt hgt)
    omega

theorem Date.dayNumber_injective {d d' : Date} (h : d.dayNumber = d'.dayNumber) : d = d' := by
  have hyear : d.year = d'.year := by
    apply year_eq_of_bounds
    . have := d'.dayOfYear_nonneg
      rw [h, dayNumber]
      omega
    have := d'.dayOfYear_lt
    rw [h, dayNumber, firstDayOfYear_succ]
    omega
  have hday : d.dayOfYear = d'.dayOfYear := by
    unfold dayNumber at h
    rw [hyear] at h
    omega
  have hle := d'.day_le
  have hpos := d'.day_pos
  obtain ⟨hmonth, hday⟩ := d.monthDay_eq_of_bounds d'.month rfl rfl (by rw [hday, hyear, dayOfYear]; omega)
    (by rw [hday, hyear, dayOfYear, firstDayOfMonth]; omega)
  apply Date.ext hyear hmonth
  rw [hday, ‹d.dayOfYear = d'.dayOfYear›, hyear, dayOfYear]
  omega

theorem dateOfDay_eq {n : Int} (h : d.dayNumber = n) : dateOfDay n = d := by
  apply Date.dayNumber_injective
  rw [dayNumber_dateOfDay, h]

theorem year_dateOfDay_eq {n year : Int} (hlow : firstDayOfYear year ≤ n) (hhigh : n < firstDayOfYear (year + 1))
    : (dateOfDay n).year = year := by
  apply year_eq_of_bounds
  . rw [dayNumber_dateOfDay]
    exact hlow
  . rw [dayNumber_dateOfDay]
    exact hhigh

theorem dayOfYear_dateOfDay (n : Int)
    : n - firstDayOfYear (dateOfDay n).year = (dateOfDay n).dayOfYear := by
  have hnumber := dayNumber_dateOfDay n
  unfold Date.dayNumber at hnumber
  omega

end Gregorian
