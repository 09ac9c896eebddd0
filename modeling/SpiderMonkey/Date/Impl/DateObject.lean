import Mathlib.Data.Rat.Floor
import SpiderMonkey.Vm.Impl.DateTime

/-!
This module contains the local fields that date objects cache, after the conversions between time values and local
times and the calendar arithmetic of dates. Numbers are finite here and their arithmetic is exact: what the functions
do with the other ones, they return NaN for them, is left out.
-/

namespace SpiderMonkey

namespace DateTime

namespace DateTimeHelper

def localTZA (system : System) (t : Int) (offset : TimeZoneOffset) (info : DateTimeInfo)
    : Int × DateTimeInfo :=
  DateTimeInfo.getOffsetMilliseconds system t offset info

def localTime (system : System) (t : Option Int) (info : DateTimeInfo) : Option Int × DateTimeInfo :=
  match t with
  | none => (none, info)
  | some t =>
    let (offset, info) := localTZA system t .UTC info
    (some (t + offset), info)

def UTC (system : System) (t : Option Int) (info : DateTimeInfo) : Option Int × DateTimeInfo :=
  match t with
  | none => (none, info)
  | some t =>
    if t < StartOfTime - msPerDay ∨ t > EndOfTime + msPerDay then
      (none, info)
    else
      let (offset, info) := localTZA system t .Local info
      (some (t - offset), info)

end DateTimeHelper
end DateTime

namespace Date

def msPerDay : ℚ := 86400000

def trunc (x : ℚ) : Int := if 0 ≤ x then ⌊x⌋ else ⌈x⌉

def toInt (x : ℚ) : Int := (trunc x).bmod (2 ^ 32)

def ToInteger (x : ℚ) : ℚ := trunc x

def fmod (x y : ℚ) : ℚ := x - trunc (x / y) * y

def PositiveModulo (dividend divisor : ℚ) : ℚ :=
  let result := fmod dividend divisor
  if result < 0 then result + divisor else result

def Day (t : ℚ) : ℚ := ⌊t / msPerDay⌋

def TimeWithinDay (t : ℚ) : ℚ := PositiveModulo t msPerDay

def IsLeapYear (year : ℚ) : Bool :=
  fmod year 4 == 0 && (fmod year 100 != 0 || fmod year 400 == 0)

def DaysInYear (year : ℚ) : ℚ := if IsLeapYear year then 366 else 365

def DayFromYear (y : ℚ) : ℚ :=
  365 * (y - 1970) + ⌊(y - 1969) / 4⌋ - ⌊(y - 1901) / 100⌋ + ⌊(y - 1601) / 400⌋

def TimeFromYear (y : ℚ) : ℚ := DayFromYear y * msPerDay

def YearFromTime (t : ℚ) : ℚ :=
  let y : ℚ := ⌊t / (msPerDay * 365.2425)⌋ + 1970
  let t2 := TimeFromYear y
  if t2 > t then
    y - 1
  else if t2 + msPerDay * DaysInYear y ≤ t then
    y + 1
  else
    y

def DaysInFebruary (year : ℚ) : Int := if IsLeapYear year then 29 else 28

def DayWithinYear (t year : ℚ) : ℚ := Day t - DayFromYear year

def MonthFromTime (t : ℚ) : ℚ :=
  let year := YearFromTime t
  let d := DayWithinYear t year
  let step : Int := 31
  if d < step then 0 else
  let step := step + DaysInFebruary year
  if d < step then 1 else
  let step := step + 31
  if d < step then 2 else
  let step := step + 30
  if d < step then 3 else
  let step := step + 31
  if d < step then 4 else
  let step := step + 30
  if d < step then 5 else
  let step := step + 31
  if d < step then 6 else
  let step := step + 31
  if d < step then 7 else
  let step := step + 30
  if d < step then 8 else
  let step := step + 31
  if d < step then 9 else
  let step := step + 30
  if d < step then 10 else
  11

def DateFromTime (t : ℚ) : ℚ :=
  let year := YearFromTime t
  let d := DayWithinYear t year
  let next : Int := 30
  if d ≤ next then d + 1 else
  let step := next
  let next := next + DaysInFebruary year
  if d ≤ next then d - step else
  let step := next
  let next := next + 31
  if d ≤ next then d - step else
  let step := next
  let next := next + 30
  if d ≤ next then d - step else
  let step := next
  let next := next + 31
  if d ≤ next then d - step else
  let step := next
  let next := next + 30
  if d ≤ next then d - step else
  let step := next
  let next := next + 31
  if d ≤ next then d - step else
  let step := next
  let next := next + 31
  if d ≤ next then d - step else
  let step := next
  let next := next + 30
  if d ≤ next then d - step else
  let step := next
  let next := next + 31
  if d ≤ next then d - step else
  let step := next
  let next := next + 30
  if d ≤ next then d - step else
  let step := next
  d - step

def WeekDay (t : ℚ) : Int :=
  let result := (toInt (Day t) + 4).tmod 7
  if result < 0 then result + 7 else result

def firstDayOfMonth : Bool → List Int
  | false => [0, 31, 59, 90, 120, 151, 181, 212, 243, 273, 304, 334, 365]
  | true => [0, 31, 60, 91, 121, 152, 182, 213, 244, 274, 305, 335, 366]

def DayFromMonth (month : Int) (isLeapYear : Bool) : Int :=
  (firstDayOfMonth isLeapYear).getD month.toNat 0

def MakeDay (year month date : ℚ) : ℚ :=
  let y := ToInteger year
  let m := ToInteger month
  let dt := ToInteger date
  let ym := y + ⌊m / 12⌋
  let mn := toInt (PositiveModulo m 12)
  let leap := IsLeapYear ym
  let yearday : ℚ := ⌊TimeFromYear ym / msPerDay⌋
  let monthday := DayFromMonth mn leap
  yearday + monthday + dt - 1

def MakeDate (day time : ℚ) : ℚ := day * msPerDay + time

def msPerHour : ℚ := 3600000
def msPerMinute : ℚ := 60000
def msPerSecond : ℚ := 1000

def HourFromTime (t : ℚ) : ℚ := PositiveModulo ⌊t / msPerHour⌋ 24
def MinFromTime (t : ℚ) : ℚ := PositiveModulo ⌊t / msPerMinute⌋ 60
def SecFromTime (t : ℚ) : ℚ := PositiveModulo ⌊t / msPerSecond⌋ 60
def msFromTime (t : ℚ) : ℚ := PositiveModulo t msPerSecond

def MakeTime (hour min sec ms : ℚ) : ℚ :=
  ToInteger hour * msPerHour + ToInteger min * msPerMinute + ToInteger sec * msPerSecond + ToInteger ms

def TimeClip (time : ℚ) : Option Int := if |time| > 8640000000000000 then none else some (trunc time)

structure LocalFields where
  year : Int
  month : Int
  date : Int
  day : Int
  secondsIntoYear : Int
deriving DecidableEq

def localYear (localTime : ℚ) : Int × ℚ × Int :=
  let year := toInt ⌊localTime / (msPerDay * 365.2425)⌋ + 1970
  let yearStartTime := TimeFromYear year
  if yearStartTime > localTime then
    let year := year - 1
    let yearStartTime := yearStartTime - msPerDay * DaysInYear year
    (year, yearStartTime, toInt (DaysInYear year))
  else
    let yearDays := toInt (DaysInYear year)
    let nextStart := yearStartTime + msPerDay * yearDays
    if nextStart ≤ localTime then
      let year := year + 1
      (year, nextStart, toInt (DaysInYear year))
    else
      (year, yearStartTime, yearDays)

def localMonth (day yearDays : Int) : Int × Int :=
  let step := -1
  let next := 30
  if day ≤ next then (0, step) else
  let step := next
  let next := next + if yearDays = 366 then 29 else 28
  if day ≤ next then (1, step) else
  let step := next
  let next := next + 31
  if day ≤ next then (2, step) else
  let step := next
  let next := next + 30
  if day ≤ next then (3, step) else
  let step := next
  let next := next + 31
  if day ≤ next then (4, step) else
  let step := next
  let next := next + 30
  if day ≤ next then (5, step) else
  let step := next
  let next := next + 31
  if day ≤ next then (6, step) else
  let step := next
  let next := next + 31
  if day ≤ next then (7, step) else
  let step := next
  let next := next + 30
  if day ≤ next then (8, step) else
  let step := next
  let next := next + 31
  if day ≤ next then (9, step) else
  let step := next
  let next := next + 30
  if day ≤ next then (10, step) else
  let step := next
  (11, step)

def localFields (localTime : ℚ) : LocalFields :=
  let (year, yearStartTime, yearDays) := localYear localTime
  -- The conversions to `uint64_t`, `uint32_t` and `int`.
  let yearTime := trunc (localTime - yearStartTime) % 2 ^ 64
  let yearSeconds := (yearTime / 1000 % 2 ^ 32).bmod (2 ^ 32)
  let day := yearSeconds.tdiv DateTime.SecondsPerDay
  let (month, step) := localMonth day yearDays
  { year
    month
    date := day - step
    day := WeekDay localTime
    secondsIntoYear := yearSeconds }

inductive SlotValue where
  | undefined
  | int32 (n : Int)
  | double (x : Option ℚ)
deriving DecidableEq

structure DateObject where
  utcTime : Option Int
  utcTimeZoneOffset : SlotValue
  localTime : SlotValue
  localYear : SlotValue
  localMonth : SlotValue
  localDate : SlotValue
  localDay : SlotValue
  localSecondsIntoYear : SlotValue
deriving DecidableEq

namespace DateObject

def setComponents (obj : DateObject) (value : SlotValue) : DateObject :=
  { obj with
    localTime := value
    localYear := value
    localMonth := value
    localDate := value
    localDay := value
    localSecondsIntoYear := value }

def setUTCTime (obj : DateObject) (t : Option Int) : DateObject :=
  { obj.setComponents .undefined with utcTime := t }

def newDateObject (t : Option Int) : DateObject :=
  setUTCTime ⟨none, .undefined, .undefined, .undefined, .undefined, .undefined, .undefined, .undefined⟩ t

def setLocalTime (obj : DateObject) (localTime : Int) : DateObject :=
  let fields := localFields localTime
  { obj with
    localTime := .double (some localTime)
    localYear := .int32 fields.year
    localMonth := .int32 fields.month
    localDate := .int32 fields.date
    localDay := .int32 fields.day
    localSecondsIntoYear := .int32 fields.secondsIntoYear }

def fillLocalTimeSlots (system : DateTime.System) (obj : DateObject) (info : DateTime.DateTimeInfo)
    : DateObject × DateTime.DateTimeInfo :=
  let (utcTZOffset, info) := DateTime.DateTimeInfo.utcToLocalStandardOffsetSeconds system info
  if obj.localTime ≠ .undefined ∧ obj.utcTimeZoneOffset = .int32 utcTZOffset then
    (obj, info)
  else
    let obj := { obj with utcTimeZoneOffset := .int32 utcTZOffset }
    match DateTime.DateTimeHelper.localTime system obj.utcTime info with
    | (none, info) => (obj.setComponents (.double none), info)
    | (some localTime, info) => (obj.setLocalTime localTime, info)

inductive Getter where
  | getYear
  | getFullYear
  | getMonth
  | getDate
  | getDay
  | getHours
  | getMinutes
  | getSeconds
  | getTimezoneOffset

def Getter.read (obj : DateObject) : Getter → SlotValue
  | .getYear =>
    match obj.localYear with
    | .int32 year => .int32 (year - 1900)
    | value => value
  | .getFullYear => obj.localYear
  | .getMonth => obj.localMonth
  | .getDate => obj.localDate
  | .getDay => obj.localDay
  | .getHours =>
    match obj.localSecondsIntoYear with
    | .int32 yearSeconds => .int32 ((yearSeconds.tdiv 3600).tmod 24)
    | value => value
  | .getMinutes =>
    match obj.localSecondsIntoYear with
    | .int32 yearSeconds => .int32 ((yearSeconds.tdiv 60).tmod 60)
    | value => value
  | .getSeconds =>
    match obj.localSecondsIntoYear with
    | .int32 yearSeconds => .int32 (yearSeconds.tmod 60)
    | value => value
  | .getTimezoneOffset =>
    match obj.utcTime, obj.localTime with
    | some utctime, .double (some localtime) => .double (some ((utctime - localtime) / 60000))
    | _, _ => .double none

-- A part that is not given is the one of the time, as in `GetMinsOrDefault`.
def setUTCParts (obj : DateObject) (h m s milli : Option ℚ) : DateObject :=
  obj.setUTCTime (obj.utcTime.bind fun t => TimeClip (MakeDate (Day t) (MakeTime (h.getD (HourFromTime t))
    (m.getD (MinFromTime t)) (s.getD (SecFromTime t)) (milli.getD (msFromTime t)))))

def setUTCMilliseconds (obj : DateObject) (milli : ℚ) : DateObject := obj.setUTCParts none none none milli
def setUTCSeconds (obj : DateObject) (s : ℚ) (milli : Option ℚ) : DateObject := obj.setUTCParts none none s milli
def setUTCMinutes (obj : DateObject) (m : ℚ) (s milli : Option ℚ) : DateObject := obj.setUTCParts none m s milli
def setUTCHours (obj : DateObject) (h : ℚ) (m s milli : Option ℚ) : DateObject := obj.setUTCParts h m s milli

end DateObject

structure DateState where
  system : DateTime.System
  info : DateTime.DateTimeInfo
  obj : DateObject

namespace DateState

def get (state : DateState) (getter : DateObject.Getter) : SlotValue × DateState :=
  let (obj, info) := state.obj.fillLocalTimeSlots state.system state.info
  (getter.read obj, { state with obj, info })

inductive Event where
  | setUTCTime (t : Option Int)
  | changeTimeZone (system : DateTime.System) (mode : DateTime.ResetTimeZoneMode)
  | get (getter : DateObject.Getter)

def step (state : DateState) : Event → DateState
  | .setUTCTime t => { state with obj := state.obj.setUTCTime t }
  | .changeTimeZone system mode =>
    { state with system, info := state.info.internalResetTimeZone mode }
  | .get getter => (state.get getter).2

end DateState

end Date

end SpiderMonkey
