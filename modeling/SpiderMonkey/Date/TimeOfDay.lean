import SpiderMonkey.Date.Calendar

/-!
This module contains the times of a day: their parts are the ones of the cached fields, and a setter of a UTC part
changes what it is given and nothing else.
-/

namespace SpiderMonkey.Date

open Int Gregorian DateObject

theorem PositiveModulo_floor (t : ℤ) (n : ℕ) {k : ℕ} (hk : 0 < k)
    : PositiveModulo (⌊(t : ℚ) / n⌋ : ℤ) k = ((t / n % k : ℤ) : ℚ) := by
  rw [floor_div, PositiveModulo_intCast _ hk]

theorem HourFromTime_intCast (t : ℤ) : HourFromTime t = ((t / 3600000 % 24 : ℤ) : ℚ) :=
  PositiveModulo_floor t 3600000 (k := 24) (by decide)

theorem MinFromTime_intCast (t : ℤ) : MinFromTime t = ((t / 60000 % 60 : ℤ) : ℚ) :=
  PositiveModulo_floor t 60000 (k := 60) (by decide)

theorem SecFromTime_intCast (t : ℤ) : SecFromTime t = ((t / 1000 % 60 : ℤ) : ℚ) :=
  PositiveModulo_floor t 1000 (k := 60) (by decide)

theorem msFromTime_intCast (t : ℤ) : msFromTime t = ((t % 1000 : ℤ) : ℚ) :=
  PositiveModulo_intCast t (n := 1000) (by decide)

theorem MakeTime_eq (h m s milli : ℚ)
    : MakeTime h m s milli = ((trunc h * 3600000 + trunc m * 60000 + trunc s * 1000 + trunc milli : ℤ) : ℚ) := by
  unfold MakeTime ToInteger msPerHour msPerMinute msPerSecond
  push_cast
  rfl

theorem MakeTime_parts (t : ℤ)
    : MakeTime (HourFromTime t) (MinFromTime t) (SecFromTime t) (msFromTime t) = TimeWithinDay t := by
  rw [HourFromTime_intCast, MinFromTime_intCast, SecFromTime_intCast, msFromTime_intCast, MakeTime_eq, trunc_intCast,
    trunc_intCast, trunc_intCast, trunc_intCast, TimeWithinDay_intCast]
  congr 1
  omega

theorem localTime_parts {t : ℤ} (hlow : -8640086400000000 ≤ t) (hhigh : t ≤ 8640086400000000)
    (obj : DateObject)
    : MakeDate (MakeDay (YearFromTime t) (MonthFromTime t) (DateFromTime t))
        (MakeTime (HourFromTime t) (MinFromTime t) (SecFromTime t) (msFromTime t)) = t
      ∧ ∃ h m s : ℤ, HourFromTime t = h ∧ MinFromTime t = m ∧ SecFromTime t = s
        ∧ Getter.getHours.read (obj.setLocalTime t) = .int32 h
        ∧ Getter.getMinutes.read (obj.setLocalTime t) = .int32 m
        ∧ Getter.getSeconds.read (obj.setLocalTime t) = .int32 s := by
  rw [MakeTime_parts]
  refine ⟨MakeDate_MakeDay t, _, _, _, HourFromTime_intCast t, MinFromTime_intCast t, SecFromTime_intCast t, ?_⟩
  have hfields := localFields_intCast (t := t) (by omega) (by omega)
  have hday := dayOfYear_dateOfDay (t / 86400000)
  have hpos := (dateOfDay (t / 86400000)).dayOfYear_nonneg
  unfold Getter.read setLocalTime
  rw [hfields]
  dsimp only
  have hseconds : 0 ≤ (t - firstDayOfYear (dateOfDay (t / 86400000)).year * 86400000) / 1000 := by omega
  refine ⟨congrArg _ ?_, congrArg _ ?_, congrArg _ ?_⟩
  . rw [tdiv_eq_ediv_of_nonneg hseconds, tmod_eq_emod_of_nonneg (by omega)]
    omega
  . rw [tdiv_eq_ediv_of_nonneg hseconds, tmod_eq_emod_of_nonneg (by omega)]
    omega
  . rw [tmod_eq_emod_of_nonneg hseconds]
    omega

theorem localTime_parts_beforeEpoch
    : ∃ h : ℤ, HourFromTime ((-1 : ℤ) : ℚ) = h
        ∧ Getter.getHours.read ((newDateObject none).setLocalTime (-1)) = .int32 h := by
  obtain ⟨_, h, _, _, hhour, _, _, hread, _⟩ := localTime_parts (t := -1) (by decide) (by decide) (newDateObject none)
  exact ⟨h, hhour, hread⟩

theorem TimeClip_intCast {t : ℤ} (hlow : -8640000000000000 ≤ t) (hhigh : t ≤ 8640000000000000) : TimeClip t = some t := by
  have habs : |(t : ℚ)| ≤ 8640000000000000 := by
    rw [abs_le]
    exact ⟨by exact_mod_cast hlow, by exact_mod_cast hhigh⟩
  rw [TimeClip, if_neg (not_lt.mpr habs), trunc_intCast]

def PartBelow (n : ℤ) (x : Option ℚ) : Prop := ∀ v ∈ x, 0 ≤ trunc v ∧ trunc v < n

theorem PartBelow.getD {x : Option ℚ} {n d : ℤ} (hx : PartBelow n x) (hd : 0 ≤ d ∧ d < n)
    : 0 ≤ trunc (x.getD d) ∧ trunc (x.getD d) < n := by
  cases x with
  | none =>
    rw [Option.getD_none, trunc_intCast]
    exact hd
  | some v => exact hx v rfl

theorem setUTCParts_parts {obj : DateObject} {t : ℤ} (hobj : obj.utcTime = some t) (hlow : -8640000000000000 ≤ t)
    (hhigh : t < 8640000000000000) {h m s milli : Option ℚ} (hh : PartBelow 24 h) (hm : PartBelow 60 m)
    (hs : PartBelow 60 s) (hmilli : PartBelow 1000 milli)
    : ∃ t' : ℤ, obj.setUTCParts h m s milli = obj.setUTCTime (some t')
      ∧ HourFromTime t' = ToInteger (h.getD (HourFromTime t)) ∧ MinFromTime t' = ToInteger (m.getD (MinFromTime t))
      ∧ SecFromTime t' = ToInteger (s.getD (SecFromTime t)) ∧ msFromTime t' = ToInteger (milli.getD (msFromTime t))
      ∧ YearFromTime t' = YearFromTime t ∧ MonthFromTime t' = MonthFromTime t ∧ DateFromTime t' = DateFromTime t := by
  have hbounds := hh.getD (d := t / 3600000 % 24) (by omega)
  have mbounds := hm.getD (d := t / 60000 % 60) (by omega)
  have sbounds := hs.getD (d := t / 1000 % 60) (by omega)
  have msbounds := hmilli.getD (d := t % 1000) (by omega)
  unfold setUTCParts ToInteger
  simp only [hobj, Option.bind_some, HourFromTime_intCast, MinFromTime_intCast, SecFromTime_intCast, msFromTime_intCast,
    YearFromTime_intCast, MonthFromTime_intCast, DateFromTime_intCast, MakeTime_eq, Day_intCast, MakeDate_intCast]
  generalize trunc (h.getD _) = hour at *
  generalize trunc (m.getD _) = min at *
  generalize trunc (s.getD _) = sec at *
  generalize trunc (milli.getD _) = ms at *
  rw [TimeClip_intCast (by omega) (by omega)]
  refine ⟨_, rfl, ?_⟩
  have hday : (t / 86400000 * 86400000 + (hour * 3600000 + min * 60000 + sec * 1000 + ms)) / 86400000 = t / 86400000 := by
    omega
  simp only [hday, Int.cast_inj, and_self, and_true]
  omega

theorem setUTCParts_parts_noon
    : ∃ t' : ℤ, (newDateObject (some 1)).setUTCParts (some ((12 : ℤ) : ℚ)) none none none
        = (newDateObject (some 1)).setUTCTime (some t') ∧ HourFromTime t' = ToInteger ((12 : ℤ) : ℚ)
        ∧ msFromTime t' = ToInteger (msFromTime ((1 : ℤ) : ℚ)) := by
  have hnone {n : ℤ} : PartBelow n none := fun _ hv => by cases hv
  obtain ⟨t', hset, hhour, _, _, hms, _⟩ := @setUTCParts_parts (newDateObject (some 1)) 1 rfl (by decide) (by decide)
    (some ((12 : ℤ) : ℚ)) none none none (fun v hv => by cases hv; rw [trunc_intCast]; decide) hnone hnone hnone
  exact ⟨t', hset, hhour, hms⟩

end SpiderMonkey.Date
