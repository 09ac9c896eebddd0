import Mathlib.Data.Int.NatAbs
import Mathlib.Data.Int.Order.Basic

/-!
This module contains the time zone information of a process and its caches of zone offsets.
-/

namespace SpiderMonkey.DateTime

def msPerSecond : Int := 1000
def SecondsPerDay : Int := 86400
def msPerDay : Int := 86400000

def StartOfTime : Int := -8640000000000000
def EndOfTime : Int := 8640000000000000

def INT64_MIN : Int := -2 ^ 63

-- Zone offsets come from the in-tree ICU, or, where it is not built in, from `time_t` functions.
inductive ZoneSource where
  | icu
  | timeT
deriving DecidableEq

namespace DateTimeInfo

def MinTimeT : ZoneSource → Int
  | .icu => StartOfTime / msPerSecond
  | .timeT => 0

def MaxTimeT : ZoneSource → Int
  | .icu => EndOfTime / msPerSecond
  | .timeT => 2145830400

def RangeExpansionAmount : Int := 30 * SecondsPerDay

structure RangeCache where
  startSeconds : Int
  endSeconds : Int
  oldStartSeconds : Int
  oldEndSeconds : Int
  offsetMilliseconds : Int
  oldOffsetMilliseconds : Int
deriving DecidableEq

def RangeCache.reset : RangeCache where
  offsetMilliseconds := 0
  startSeconds := INT64_MIN
  endSeconds := INT64_MIN
  oldOffsetMilliseconds := 0
  oldStartSeconds := INT64_MIN
  oldEndSeconds := INT64_MIN

def AssertRange (source : ZoneSource) (start end_ : Int) : Prop :=
  start ≤ end_
    ∧ (start = INT64_MIN → end_ = INT64_MIN)
    ∧ (end_ = INT64_MIN → start = INT64_MIN)
    ∧ (start ≠ INT64_MIN → MinTimeT source ≤ start ∧ MinTimeT source ≤ end_)
    ∧ (start ≠ INT64_MIN → start ≤ MaxTimeT source ∧ end_ ≤ MaxTimeT source)

-- The sums stay within 64 bits: a range starts at `INT64_MIN` or above `MinTimeT`, and only a start
-- above `seconds` is expanded downwards.
def getOrComputeValue (source : ZoneSource) (compute : Int → Int) (seconds : Int)
    (range : RangeCache) : Int × RangeCache :=
  if range.startSeconds ≤ seconds ∧ seconds ≤ range.endSeconds then
    (range.offsetMilliseconds, range)
  else if range.oldStartSeconds ≤ seconds ∧ seconds ≤ range.oldEndSeconds then
    (range.oldOffsetMilliseconds, range)
  else
    let range := { range with
      oldOffsetMilliseconds := range.offsetMilliseconds
      oldStartSeconds := range.startSeconds
      oldEndSeconds := range.endSeconds }
    if range.startSeconds ≤ seconds then
      let newEndSeconds := min (range.endSeconds + RangeExpansionAmount) (MaxTimeT source)
      if newEndSeconds ≥ seconds then
        let endOffsetMilliseconds := compute newEndSeconds
        if endOffsetMilliseconds = range.offsetMilliseconds then
          (range.offsetMilliseconds, { range with endSeconds := newEndSeconds })
        else
          let offsetMilliseconds := compute seconds
          let range := { range with offsetMilliseconds }
          if offsetMilliseconds = endOffsetMilliseconds then
            (offsetMilliseconds, { range with startSeconds := seconds, endSeconds := newEndSeconds })
          else
            (offsetMilliseconds, { range with endSeconds := seconds })
      else
        let offsetMilliseconds := compute seconds
        (offsetMilliseconds,
          { range with offsetMilliseconds, startSeconds := seconds, endSeconds := seconds })
    else
      let newStartSeconds := max (range.startSeconds - RangeExpansionAmount) (MinTimeT source)
      if newStartSeconds ≤ seconds then
        let startOffsetMilliseconds := compute newStartSeconds
        if startOffsetMilliseconds = range.offsetMilliseconds then
          (range.offsetMilliseconds, { range with startSeconds := newStartSeconds })
        else
          let offsetMilliseconds := compute seconds
          let range := { range with offsetMilliseconds }
          if offsetMilliseconds = startOffsetMilliseconds then
            (offsetMilliseconds, { range with startSeconds := newStartSeconds, endSeconds := seconds })
          else
            (offsetMilliseconds, { range with startSeconds := seconds })
      else
        let offsetMilliseconds := compute seconds
        (offsetMilliseconds,
          { range with offsetMilliseconds, startSeconds := seconds, endSeconds := seconds })

def getOrComputeValues (source : ZoneSource) (compute : Int → Int) (queries : List Int)
    (range : RangeCache) : List Int × RangeCache :=
  (queries.mapM (m := StateM RangeCache) (getOrComputeValue source compute)).run range

end DateTimeInfo

-- What is used of ICU's time zones: the raw and the daylight saving offset at an instant, and at a
-- local time, where skipped and repeated ones are interpreted with `kFormer`.
structure TimeZone where
  getOffset : Int → Int × Int
  getOffsetFromLocal : Int → Int × Int

-- What the environment of the process answers when it is asked for its zone: the standard offset of
-- the zone at the moment, and the zone that ICU's default is set to.
structure System where
  standardOffsetSeconds : Int
  timeZone : TimeZone

inductive ResetTimeZoneMode where
  | DontResetIfOffsetUnchanged
  | ResetEvenIfOffsetUnchanged
deriving DecidableEq

inductive TimeZoneStatus where
  | Valid
  | NeedsUpdate
  | UpdateIfChanged
deriving DecidableEq

inductive TimeZoneOffset where
  | UTC
  | Local
deriving DecidableEq

-- `timeZone_` is made from ICU's default zone when it is first needed and dropped when that changes:
-- here it is that default.
structure DateTimeInfo where
  timeZoneStatus_ : TimeZoneStatus
  utcToLocalStandardOffsetSeconds_ : Int
  dstRange_ : DateTimeInfo.RangeCache
  utcRange_ : DateTimeInfo.RangeCache
  localRange_ : DateTimeInfo.RangeCache
  timeZone_ : TimeZone

namespace DateTimeInfo

def internalResetTimeZone (info : DateTimeInfo) (mode : ResetTimeZoneMode) : DateTimeInfo :=
  if info.timeZoneStatus_ = .NeedsUpdate then
    info
  else if mode = .ResetEvenIfOffsetUnchanged then
    { info with timeZoneStatus_ := .NeedsUpdate }
  else
    { info with timeZoneStatus_ := .UpdateIfChanged }

def updateTimeZone (info : DateTimeInfo) (system : System) : DateTimeInfo :=
  let updateIfChanged := info.timeZoneStatus_ = .UpdateIfChanged
  let info := { info with timeZoneStatus_ := .Valid }
  let newOffset := system.standardOffsetSeconds
  if updateIfChanged ∧ newOffset = info.utcToLocalStandardOffsetSeconds_ then
    info
  else
    { info with
      utcToLocalStandardOffsetSeconds_ := newOffset
      dstRange_ := RangeCache.reset
      utcRange_ := RangeCache.reset
      localRange_ := RangeCache.reset
      timeZone_ := system.timeZone }

def acquireLockWithValidTimeZone (info : DateTimeInfo) (system : System) : DateTimeInfo :=
  if info.timeZoneStatus_ ≠ .Valid then info.updateTimeZone system else info

def toClampedSeconds (source : ZoneSource) (milliseconds : Int) : Int :=
  let seconds := milliseconds.tdiv msPerSecond
  if seconds > MaxTimeT source then
    MaxTimeT source
  else if seconds < MinTimeT source then
    SecondsPerDay
  else
    seconds

def computeDSTOffsetMilliseconds (timeZone : TimeZone) (utcSeconds : Int) : Int :=
  let (_, dstOffset) := timeZone.getOffset (utcSeconds * msPerSecond)
  dstOffset

def computeUTCOffsetMilliseconds (timeZone : TimeZone) (localSeconds : Int) : Int :=
  let (rawOffset, dstOffset) := timeZone.getOffsetFromLocal (localSeconds * msPerSecond)
  rawOffset + dstOffset

def computeLocalOffsetMilliseconds (timeZone : TimeZone) (utcSeconds : Int) : Int :=
  let (rawOffset, dstOffset) := timeZone.getOffset (utcSeconds * msPerSecond)
  rawOffset + dstOffset

def internalGetDSTOffsetMilliseconds (info : DateTimeInfo) (utcMilliseconds : Int)
    : Int × DateTimeInfo :=
  let utcSeconds := toClampedSeconds .icu utcMilliseconds
  let (value, dstRange_) :=
    getOrComputeValue .icu (computeDSTOffsetMilliseconds info.timeZone_) utcSeconds info.dstRange_
  (value, { info with dstRange_ })

def internalGetOffsetMilliseconds (info : DateTimeInfo) (milliseconds : Int) (offset : TimeZoneOffset)
    : Int × DateTimeInfo :=
  let seconds := toClampedSeconds .icu milliseconds
  match offset with
  | .UTC =>
    let (value, localRange_) :=
      getOrComputeValue .icu (computeLocalOffsetMilliseconds info.timeZone_) seconds info.localRange_
    (value, { info with localRange_ })
  | .Local =>
    let (value, utcRange_) :=
      getOrComputeValue .icu (computeUTCOffsetMilliseconds info.timeZone_) seconds info.utcRange_
    (value, { info with utcRange_ })

def getDSTOffsetMilliseconds (system : System) (utcMilliseconds : Int) (info : DateTimeInfo)
    : Int × DateTimeInfo :=
  (info.acquireLockWithValidTimeZone system).internalGetDSTOffsetMilliseconds utcMilliseconds

def utcToLocalStandardOffsetSeconds (system : System) (info : DateTimeInfo) : Int × DateTimeInfo :=
  let info := info.acquireLockWithValidTimeZone system
  (info.utcToLocalStandardOffsetSeconds_, info)

def getOffsetMilliseconds (system : System) (milliseconds : Int) (offset : TimeZoneOffset)
    (info : DateTimeInfo) : Int × DateTimeInfo :=
  (info.acquireLockWithValidTimeZone system).internalGetOffsetMilliseconds milliseconds offset

inductive Lookup where
  | DSTOffset (utcMilliseconds : Int)
  | standardOffset
  | offset (milliseconds : Int) (offset : TimeZoneOffset)

def afterLookup (system : System) (info : DateTimeInfo) : Lookup → DateTimeInfo
  | .DSTOffset utcMilliseconds => (getDSTOffsetMilliseconds system utcMilliseconds info).2
  | .standardOffset => (utcToLocalStandardOffsetSeconds system info).2
  | .offset milliseconds offset => (getOffsetMilliseconds system milliseconds offset info).2

end DateTimeInfo

end SpiderMonkey.DateTime
