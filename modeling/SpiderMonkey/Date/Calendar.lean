import SpiderMonkey.Date.Impl.DateObject
import SpiderMonkey.Lib.Gregorian

/-!
This module contains the exactness of the calendar arithmetic: at integers it is the one of the proleptic Gregorian
calendar, over the whole range of local times.
-/

namespace SpiderMonkey.Date

open Int
open Gregorian

theorem floor_div (a : ℤ) (n : ℕ) : ⌊(a : ℚ) / (n : ℚ)⌋ = a / n :=
  Rat.floor_intCast_div_natCast a n

theorem trunc_intCast (a : ℤ) : trunc a = a := by
  unfold trunc
  rw [floor_intCast, ceil_intCast, ite_self]

theorem trunc_div (a : ℤ) {n : ℕ} (hn : 0 < n) : trunc ((a : ℚ) / n) = a.tdiv n := by
  have hpos : (0 : ℚ) < n := Nat.cast_pos.mpr hn
  unfold trunc
  split
  next hge =>
    have hnonneg : 0 ≤ a := by
      rw [le_div_iff₀ hpos, zero_mul] at hge
      exact_mod_cast hge
    rw [floor_div, tdiv_eq_ediv_of_nonneg hnonneg]
  next hlt =>
    have hneg : a < 0 := by
      rw [le_div_iff₀ hpos, zero_mul, not_le] at hlt
      exact_mod_cast hlt
    have hopposite : (a : ℚ) / n = -(((-a : ℤ) : ℚ) / n) := by
      push_cast
      rw [neg_div, neg_neg]
    rw [hopposite, Int.ceil_neg, floor_div, ← Int.tdiv_eq_ediv_of_nonneg (by omega), Int.neg_tdiv, neg_neg]

theorem fmod_intCast (a : ℤ) {n : ℕ} (hn : 0 < n) : fmod a n = (a.tmod n : ℤ) := by
  unfold fmod
  rw [trunc_div a hn, Int.tmod_def]
  push_cast
  rw [mul_comm]

theorem PositiveModulo_intCast (a : ℤ) {n : ℕ} (hn : 0 < n) : PositiveModulo a n = (a % n : ℤ) := by
  have hlow := emod_nonneg a (show (n : ℤ) ≠ 0 by omega)
  have hhigh := emod_lt_of_pos a (show (0 : ℤ) < n by omega)
  have htmod : a.tmod n = a % n ∨ a.tmod n = a % n - n := by
    rw [tmod_eq_emod, natAbs_natCast]
    split
    next => exact Or.inl (sub_zero _)
    next => exact Or.inr rfl
  unfold PositiveModulo
  rw [fmod_intCast a hn]
  dsimp only
  rcases htmod with heq | heq
  . rw [heq, if_neg]
    rw [not_lt]
    exact_mod_cast hlow
  rw [heq, if_pos]
  . push_cast
    rw [sub_add_cancel]
  . have : a % n - n < 0 := by omega
    exact_mod_cast this

theorem IsLeapYear_intCast (y : ℤ) : IsLeapYear y = decide (Gregorian.IsLeapYear y) := by
  have h4 := fmod_intCast y (n := 4) (by decide)
  have h100 := fmod_intCast y (n := 100) (by decide)
  have h400 := fmod_intCast y (n := 400) (by decide)
  push_cast at h4 h100 h400
  have hzero : ∀ k : ℤ, y.tmod k = 0 ↔ y % k = 0 := by
    intro k
    rw [← dvd_iff_tmod_eq_zero, dvd_iff_emod_eq_zero]
  rw [Bool.eq_iff_iff, decide_eq_true_iff, IsLeapYear, h4, h100, h400]
  unfold Gregorian.IsLeapYear
  simp [hzero]

theorem DaysInYear_intCast (y : ℤ) : DaysInYear y = (daysInYear y : ℚ) := by
  rw [DaysInYear, IsLeapYear_intCast, daysInYear_eq]
  simp only [decide_eq_true_eq]
  split <;> norm_num

theorem DayFromYear_intCast (y : ℤ) : DayFromYear y = (firstDayOfYear y : ℚ) := by
  have h4 := floor_div (y - 1969) 4
  have h100 := floor_div (y - 1901) 100
  have h400 := floor_div (y - 1601) 400
  push_cast at h4 h100 h400
  unfold DayFromYear firstDayOfYear
  rw [h4, h100, h400]
  push_cast
  rfl

theorem TimeFromYear_intCast (y : ℤ) : TimeFromYear y = ((firstDayOfYear y * 86400000 : ℤ) : ℚ) := by
  rw [TimeFromYear, DayFromYear_intCast, msPerDay]
  push_cast
  rfl

theorem Day_intCast (t : ℤ) : Day t = ((t / 86400000 : ℤ) : ℚ) := by
  have h := floor_div t 86400000
  push_cast at h
  rw [Day, msPerDay, h]

theorem TimeWithinDay_intCast (t : ℤ) : TimeWithinDay t = ((t % 86400000 : ℤ) : ℚ) :=
  PositiveModulo_intCast t (n := 86400000) (by decide)

theorem floor_div_msPerYear (t : ℤ)
    : ⌊(t : ℚ) / (msPerDay * 365.2425)⌋ + 1970 = t / 31556952000 + 1970 := by
  have h := floor_div t 31556952000
  push_cast at h
  rw [← h, msPerDay]
  norm_num

section Year

variable {t y : ℤ} (hguess : t / 31556952000 + 1970 = y)

include hguess

theorem year_of_guess_late (h : t < firstDayOfYear y * 86400000)
    : (dateOfDay (t / 86400000)).year = y - 1 := by
  have hprev := firstDayOfYear_bounds (y - 1)
  apply year_dateOfDay_eq
  . omega
  . rw [sub_add_cancel]
    omega

theorem year_of_guess_early (h : firstDayOfYear y * 86400000 + 86400000 * daysInYear y ≤ t)
    : (dateOfDay (t / 86400000)).year = y + 1 := by
  have hnext := firstDayOfYear_succ y
  have hafter := firstDayOfYear_bounds (y + 1 + 1)
  apply year_dateOfDay_eq
  . omega
  . omega

omit hguess

theorem year_of_guess_right (hlow : firstDayOfYear y * 86400000 ≤ t)
    (hhigh : t < firstDayOfYear y * 86400000 + 86400000 * daysInYear y)
    : (dateOfDay (t / 86400000)).year = y := by
  have hnext := firstDayOfYear_succ y
  apply year_dateOfDay_eq
  . omega
  . omega

end Year

theorem YearFromTime_intCast (t : ℤ) : YearFromTime t = ((dateOfDay (t / 86400000)).year : ℚ) := by
  obtain ⟨y, hguess⟩ : ∃ y, t / 31556952000 + 1970 = y := ⟨_, rfl⟩
  have hy : ((⌊(t : ℚ) / (msPerDay * 365.2425)⌋ : ℤ) : ℚ) + 1970 = (y : ℚ) := by
    rw [← hguess, ← floor_div_msPerYear, cast_add]
    rfl
  unfold YearFromTime
  dsimp only
  rw [hy, TimeFromYear_intCast, DaysInYear_intCast, msPerDay]
  split
  next hlate =>
    have hlate : t < firstDayOfYear y * 86400000 := by exact_mod_cast hlate
    rw [year_of_guess_late hguess hlate, cast_sub, cast_one]
  next hlate =>
  have hlate : firstDayOfYear y * 86400000 ≤ t := by
    rw [gt_iff_lt, not_lt] at hlate
    exact_mod_cast hlate
  split
  next hearly =>
    have hearly : firstDayOfYear y * 86400000 + 86400000 * daysInYear y ≤ t := by
      exact_mod_cast hearly
    rw [year_of_guess_early hguess hearly, cast_add, cast_one]
  next hearly =>
    have hearly : t < firstDayOfYear y * 86400000 + 86400000 * daysInYear y := by
      rw [not_le] at hearly
      exact_mod_cast hearly
    rw [year_of_guess_right hlate hearly]

theorem DayWithinYear_intCast (t y : ℤ)
    : DayWithinYear t y = ((t / 86400000 - firstDayOfYear y : ℤ) : ℚ) := by
  rw [DayWithinYear, Day_intCast, DayFromYear_intCast, cast_sub]

theorem DaysInFebruary_intCast (y : ℤ) : DaysInFebruary y = daysInMonth y 1 := by
  rw [DaysInFebruary, IsLeapYear_intCast, daysInMonth]
  simp only [decide_eq_true_eq]

theorem ite_cast_lt {a b : ℤ} (hlt : a < b → x = z) (hge : b ≤ a → y = z)
    : (if (a : ℚ) < (b : ℚ) then x else y) = z := by
  split
  next h => exact hlt (cast_lt.mp h)
  next h => exact hge (cast_le.mp (not_lt.mp h))

theorem ite_cast_le {a b : ℤ} (hle : a ≤ b → x = z) (hgt : b < a → y = z)
    : (if (a : ℚ) ≤ (b : ℚ) then x else y) = z := by
  split
  next h => exact hle (cast_le.mp h)
  next h => exact hgt (cast_lt.mp (not_le.mp h))

theorem MonthFromTime_intCast (t : ℤ)
    : MonthFromTime t = ((dateOfDay (t / 86400000)).month : ℚ) := by
  unfold MonthFromTime
  rw [YearFromTime_intCast]
  dsimp only
  rw [DayWithinYear_intCast, DaysInFebruary_intCast, dayOfYear_dateOfDay]
  generalize dateOfDay (t / 86400000) = date
  obtain ⟨february, hfebruary⟩ : ∃ february, daysInMonth date.year 1 = february := ⟨_, rfl⟩
  rw [hfebruary]
  obtain ⟨month, hmonth, hlow, hhigh, hmin, heq, -⟩ := date.exists_monthStart hfebruary
  rw [heq]
  interval_cases month
  all_goals
    simp only [monthStart] at hlow hhigh
    repeat' (apply ite_cast_lt <;> intro _ <;> try omega)
    rfl

theorem DateFromTime_intCast (t : ℤ)
    : DateFromTime t = ((dateOfDay (t / 86400000)).day : ℚ) := by
  unfold DateFromTime
  rw [YearFromTime_intCast]
  dsimp only
  rw [DayWithinYear_intCast, DaysInFebruary_intCast, dayOfYear_dateOfDay]
  generalize dateOfDay (t / 86400000) = date
  obtain ⟨february, hfebruary⟩ : ∃ february, daysInMonth date.year 1 = february := ⟨_, rfl⟩
  rw [hfebruary]
  obtain ⟨month, hmonth, hlow, hhigh, hmin, -, hday⟩ := date.exists_monthStart hfebruary
  rw [hday]
  interval_cases month
  all_goals
    simp only [monthStart] at hlow hhigh ⊢
    repeat' (apply ite_cast_le <;> intro _ <;> try omega)
    push_cast
    ring

theorem toInt_intCast {n : ℤ} (hlow : -2147483648 ≤ n) (hhigh : n < 2147483648) : toInt n = n := by
  rw [toInt, trunc_intCast]
  apply bmod_eq_of_le
  . exact hlow
  . exact hhigh

theorem WeekDay_intCast {t : ℤ} (hlow : -8726400000000000 ≤ t) (hhigh : t ≤ 8726400000000000)
    : WeekDay t = weekdayOfDay (t / 86400000) := by
  unfold WeekDay weekdayOfDay
  rw [Day_intCast, toInt_intCast (by omega) (by omega)]
  generalize t / 86400000 + 4 = n
  have htmod := @Int.tmod_eq_emod n 7
  dsimp only
  split at htmod
  next => omega
  next =>
    have : (Int.natAbs 7 : Int) = 7 := rfl
    omega

theorem MakeDate_intCast (day time : ℤ) : MakeDate day time = ((day * 86400000 + time : ℤ) : ℚ) := by
  rw [MakeDate, msPerDay, cast_add, cast_mul]
  norm_num

theorem firstDayOfMonth_getD (y : ℤ) {m : ℕ} (h : m < 12)
    : DayFromMonth m (decide (Gregorian.IsLeapYear y)) = Gregorian.firstDayOfMonth y m := by
  rw [firstDayOfMonth_eq_monthStart rfl h.le, DayFromMonth, daysInMonth]
  by_cases hleap : Gregorian.IsLeapYear y
  . simp only [hleap, decide_true, ↓reduceIte, firstDayOfMonth, toNat_natCast]
    interval_cases m <;> rfl
  . simp only [hleap, decide_false, ↓reduceIte, firstDayOfMonth, toNat_natCast]
    interval_cases m <;> rfl

theorem MakeDay_intCast (y m d : ℤ)
    : MakeDay y m d = ((firstDayOfYear (y + m / 12) + Gregorian.firstDayOfMonth (y + m / 12) (m % 12).toNat
            + d - 1 : ℤ) : ℚ) := by
  have hquotient := floor_div m 12
  have hmodulo := PositiveModulo_intCast m (n := 12) (by decide)
  push_cast at hquotient hmodulo
  have hyear : (ToInteger y : ℚ) + ⌊ToInteger m / 12⌋ = ((y + m / 12 : ℤ) : ℚ) := by
    rw [ToInteger, ToInteger, trunc_intCast, trunc_intCast, hquotient, cast_add]
  unfold MakeDay
  dsimp only
  rw [hyear, IsLeapYear_intCast, ToInteger, trunc_intCast, ToInteger, trunc_intCast, hmodulo,
    toInt_intCast (by omega) (by omega)]
  have hmonth := firstDayOfMonth_getD (y + m / 12) (m := (m % 12).toNat) (by omega)
  rw [toNat_of_nonneg (by omega)] at hmonth
  have hday : ⌊TimeFromYear ((y + m / 12 : ℤ) : ℚ) / msPerDay⌋ = firstDayOfYear (y + m / 12) := by
    have h := floor_div (firstDayOfYear (y + m / 12) * 86400000) 86400000
    rw [TimeFromYear_intCast, msPerDay]
    push_cast at h ⊢
    rw [h]
    omega
  rw [hmonth, hday]
  push_cast
  ring

theorem toInt_DaysInYear (y : ℤ) : toInt (DaysInYear y) = daysInYear y := by
  have hdays := daysInYear_eq y
  rw [DaysInYear_intCast]
  apply toInt_intCast
  . split at hdays <;> omega
  . split at hdays <;> omega

theorem ite_le {α : Type} {a b : ℤ} {x y z : α} (hle : a ≤ b → x = z) (hgt : b < a → y = z)
    : (if a ≤ b then x else y) = z := by
  split
  next h => exact hle h
  next h => exact hgt (not_le.mp h)

theorem localMonth_dayOfYear (date : Gregorian.Date)
    : localMonth date.dayOfYear (daysInYear date.year) = ((date.month : ℤ), date.dayOfYear - date.day) := by
  obtain ⟨february, hfebruary⟩ : ∃ february, daysInMonth date.year 1 = february := ⟨_, rfl⟩
  have hlength : (if daysInYear date.year = 366 then 29 else 28) = february := by
    rw [← hfebruary, daysInYear_eq, daysInMonth]
    by_cases hleap : Gregorian.IsLeapYear date.year
    . simp only [hleap, ↓reduceIte]
    . simp only [hleap, ↓reduceIte]
      decide
  unfold localMonth
  rw [hlength]
  obtain ⟨month, hmonth, hlow, hhigh, hmin, heq, hday⟩ := date.exists_monthStart hfebruary
  rw [heq, hday]
  interval_cases month
  all_goals
    simp only [monthStart] at hlow hhigh ⊢
    repeat' (apply ite_le <;> intro _ <;> try omega)
    rw [Prod.mk.injEq]
    omega

section LocalFields

variable {t : ℤ} (hlow : -8726400000000000 ≤ t) (hhigh : t ≤ 8726400000000000)

include hlow hhigh

theorem localYear_intCast
    : localYear t = ((dateOfDay (t / 86400000)).year,
            ((firstDayOfYear (dateOfDay (t / 86400000)).year * 86400000 : ℤ) : ℚ),
            daysInYear (dateOfDay (t / 86400000)).year) := by
  obtain ⟨y, hguess⟩ : ∃ y, t / 31556952000 + 1970 = y := ⟨_, rfl⟩
  have hy : toInt ((⌊(t : ℚ) / (msPerDay * 365.2425)⌋ : ℤ) : ℚ) + 1970 = y := by
    have hfloor := floor_div_msPerYear t
    rw [toInt_intCast (by omega) (by omega), hfloor, hguess]
  unfold localYear
  dsimp only
  rw [hy, TimeFromYear_intCast, toInt_DaysInYear, toInt_DaysInYear, msPerDay]
  split
  next hlate =>
    have hlate : t < firstDayOfYear y * 86400000 := by exact_mod_cast hlate
    have hstart := firstDayOfYear_succ (y - 1)
    rw [sub_add_cancel] at hstart
    have hstartTime : ((firstDayOfYear y * 86400000 : ℤ) : ℚ) - 86400000 * DaysInYear ((y - 1 : ℤ) : ℚ)
        = ((firstDayOfYear (y - 1) * 86400000 : ℤ) : ℚ) := by
      rw [DaysInYear_intCast, hstart]
      push_cast
      ring
    rw [year_of_guess_late hguess hlate, hstartTime]
  next hlate =>
  have hlate : firstDayOfYear y * 86400000 ≤ t := by
    rw [gt_iff_lt, not_lt] at hlate
    exact_mod_cast hlate
  split
  next hearly =>
    have hearly : firstDayOfYear y * 86400000 + 86400000 * daysInYear y ≤ t := by
      exact_mod_cast hearly
    have hstartTime : ((firstDayOfYear y * 86400000 : ℤ) : ℚ) + 86400000 * (daysInYear y : ℚ)
        = ((firstDayOfYear (y + 1) * 86400000 : ℤ) : ℚ) := by
      rw [firstDayOfYear_succ]
      push_cast
      ring
    rw [year_of_guess_early hguess hearly, hstartTime, toInt_DaysInYear]
  next hearly =>
    have hearly : t < firstDayOfYear y * 86400000 + 86400000 * daysInYear y := by
      rw [not_le] at hearly
      exact_mod_cast hearly
    rw [year_of_guess_right hlate hearly]

theorem localFields_intCast
    : localFields t
        = { year := (dateOfDay (t / 86400000)).year
            month := (dateOfDay (t / 86400000)).month
            date := (dateOfDay (t / 86400000)).day
            day := weekdayOfDay (t / 86400000)
            secondsIntoYear :=
              (t - firstDayOfYear (dateOfDay (t / 86400000)).year * 86400000) / 1000 } := by
  have hdayOfYear := dayOfYear_dateOfDay (t / 86400000)
  have hweekday := WeekDay_intCast hlow hhigh
  have hyear := localYear_intCast hlow hhigh
  generalize dateOfDay (t / 86400000) = date at *
  have hpos := date.dayOfYear_nonneg
  have hlt : date.dayOfYear < 366 := by
    have hlt := date.dayOfYear_lt
    have hdays := daysInYear_eq date.year
    split at hdays <;> omega
  have hseconds : (trunc ((t : ℚ) - ((firstDayOfYear date.year * 86400000 : ℤ) : ℚ)) % 2 ^ 64 / 1000
      % 2 ^ 32).bmod (2 ^ 32) = (t - firstDayOfYear date.year * 86400000) / 1000 := by
    rw [← cast_sub, trunc_intCast]
    have hbounds : 0 ≤ t - firstDayOfYear date.year * 86400000
        ∧ t - firstDayOfYear date.year * 86400000 < 31622400000 := by
      omega
    generalize t - firstDayOfYear date.year * 86400000 = elapsed at *
    have hsmall : elapsed % 2 ^ 64 / 1000 % 2 ^ 32 = elapsed / 1000 := by omega
    rw [hsmall]
    apply bmod_eq_of_le <;> omega
  have hday : ((t - firstDayOfYear date.year * 86400000) / 1000).tdiv DateTime.SecondsPerDay = date.dayOfYear := by
    rw [tdiv_eq_ediv_of_nonneg (by omega), DateTime.SecondsPerDay]
    omega
  unfold localFields
  rw [hyear]
  dsimp only
  rw [hseconds, hday, localMonth_dayOfYear, hweekday, sub_sub_cancel]

end LocalFields

theorem MakeDate_MakeDay (t : ℤ)
    : MakeDate (MakeDay (YearFromTime t) (MonthFromTime t) (DateFromTime t)) (TimeWithinDay t) = t := by
  have hmonth := (dateOfDay (t / 86400000)).month_lt
  have hnumber := dayNumber_dateOfDay (t / 86400000)
  unfold Date.dayNumber Date.dayOfYear at hnumber
  rw [YearFromTime_intCast, MonthFromTime_intCast, DateFromTime_intCast, TimeWithinDay_intCast]
  generalize dateOfDay (t / 86400000) = date at *
  have hday := MakeDay_intCast date.year date.month date.day
  have hquotient : (date.month : ℤ) / 12 = 0 := by omega
  have hmodulo : ((date.month : ℤ) % 12).toNat = date.month := by omega
  rw [hquotient, hmodulo, add_zero] at hday
  have hsum : firstDayOfYear date.year + Gregorian.firstDayOfMonth date.year date.month + date.day - 1
      = t / 86400000 := by
    omega
  rw [hsum] at hday
  rw [show ((date.month : ℕ) : ℚ) = ((date.month : ℤ) : ℚ) from rfl, hday, MakeDate_intCast]
  congr 1
  omega

theorem MakeDay_add (y m d : ℤ)
    : MakeDay y m d = MakeDay ((y + m / 12 : ℤ) : ℚ) ((m % 12 : ℤ) : ℚ) 1 + d - 1 := by
  have hfirst := MakeDay_intCast (y + m / 12) (m % 12) 1
  have hquotient : m % 12 / 12 = 0 := by omega
  have hmodulo : m % 12 % 12 = m % 12 := by omega
  rw [hquotient, hmodulo, add_zero, cast_one] at hfirst
  rw [MakeDay_intCast, hfirst]
  push_cast
  ring

theorem exists_MakeDay_first (y m : ℤ)
    : ∃ n : ℤ, MakeDay y m 1 = n ∧ (dateOfDay n).year = y + m / 12
        ∧ (dateOfDay n).month = (m % 12).toNat ∧ (dateOfDay n).day = 1 := by
  let first : Gregorian.Date := {
    year := y + m / 12
    month := (m % 12).toNat
    day := 1
    month_lt := by omega
    day_pos := le_rfl
    day_le := le_trans (by decide) (daysInMonth_bounds (y + m / 12) (m % 12).toNat).left }
  have hfirst : dateOfDay first.dayNumber = first := dateOfDay_eq rfl
  refine ⟨first.dayNumber, ?_, ?_⟩
  . have hday := MakeDay_intCast y m 1
    rw [cast_one] at hday
    rw [hday]
    congr 1
    simp only [first, Date.dayNumber, Date.dayOfYear]
    omega
  . rw [hfirst]
    exact ⟨rfl, rfl, rfl⟩

theorem calendar_exact {t : ℤ} (hlow : -(8640000000000000 + 86400000) ≤ t)
    (hhigh : t ≤ 8640000000000000 + 86400000) (y m d : ℤ)
    : YearFromTime t = (dateOfDay (t / 86400000)).year ∧ MonthFromTime t = (dateOfDay (t / 86400000)).month
        ∧ DateFromTime t = (dateOfDay (t / 86400000)).day
        ∧ WeekDay t = weekdayOfDay (t / 86400000)
        ∧ MakeDate (MakeDay (YearFromTime t) (MonthFromTime t) (DateFromTime t)) (TimeWithinDay t) = t
        ∧ MakeDay y m d = MakeDay ((y + m / 12 : ℤ) : ℚ) ((m % 12 : ℤ) : ℚ) 1 + d - 1
        ∧ (∃ n : ℤ, MakeDay y m 1 = n ∧ (dateOfDay n).year = y + m / 12
            ∧ (dateOfDay n).month = (m % 12).toNat ∧ (dateOfDay n).day = 1)
        ∧ YearFromTime t = (localFields t).year
        ∧ MonthFromTime t = (localFields t).month
        ∧ DateFromTime t = (localFields t).date
        ∧ WeekDay t = (localFields t).day
        ∧ ⌊(t - TimeFromYear (YearFromTime t)) / 1000⌋ = (localFields t).secondsIntoYear := by
  have hfields := localFields_intCast (t := t) (by omega) (by omega)
  have hweekday := WeekDay_intCast (t := t) (by omega) (by omega)
  have hseconds : ⌊((t : ℚ) - TimeFromYear (YearFromTime t)) / 1000⌋
      = (t - firstDayOfYear (dateOfDay (t / 86400000)).year * 86400000) / 1000 := by
    have hfloor := floor_div (t - firstDayOfYear (dateOfDay (t / 86400000)).year * 86400000) 1000
    rw [YearFromTime_intCast, TimeFromYear_intCast, ← cast_sub]
    exact hfloor
  refine ⟨YearFromTime_intCast t, MonthFromTime_intCast t, DateFromTime_intCast t, hweekday,
    MakeDate_MakeDay t, MakeDay_add y m d, exists_MakeDay_first y m, ?_⟩
  rw [hfields, hseconds]
  exact ⟨YearFromTime_intCast t, MonthFromTime_intCast t, DateFromTime_intCast t, hweekday, rfl⟩

theorem calendar_exact_beforeEpoch
    : YearFromTime ((-1 : ℤ) : ℚ) = ((1969 : ℤ) : ℚ) ∧ MonthFromTime ((-1 : ℤ) : ℚ) = ((11 : ℕ) : ℚ)
        ∧ DateFromTime ((-1 : ℤ) : ℚ) = ((31 : ℤ) : ℚ) ∧ WeekDay ((-1 : ℤ) : ℚ) = 3 := by
  obtain ⟨hyear, hmonth, hdate, hday, _⟩ :=
    calendar_exact (t := -1) (by decide) (by decide) 1969 11 31
  have hlast : dateOfDay (-1 / 86400000) = dateOfDay (-1) := rfl
  rw [hlast] at hyear hmonth hdate
  exact ⟨hyear, hmonth, hdate, hday⟩

end SpiderMonkey.Date
