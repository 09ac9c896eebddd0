import SpiderMonkey.Date.Impl.DateObject
import SpiderMonkey.Vm.DateTime

/-!
This module contains what a time zone is, an offset for each instant, with the local times that it skips and repeats,
and lemmas about the offset lookups of the conversions between time values and local times.
-/

namespace SpiderMonkey.DateTime

open DateTimeInfo
open AtMostOneChange

-- The offset changes at whole seconds only, at most once in thirty days, and stays below a day.
structure Zone where
  offset : Int → Int
  offset_wholeSecond : ∀ t, offset (t - t % msPerSecond) = offset t
  oneChange : ∀ a b, b ≤ a + 30 * msPerDay → OneChange offset a b
  bounded : ∀ t, -msPerDay < offset t ∧ offset t < msPerDay

namespace Zone

variable (zone : Zone)

def localTimeAt (t : Int) : Int := t + zone.offset t

def Repeated (u : Int) : Prop := ∃ t t', t ≠ t' ∧ zone.localTimeAt t = u ∧ zone.localTimeAt t' = u

def Skipped (u : Int) : Prop := ∀ t, zone.localTimeAt t ≠ u

def InGap (T u : Int) : Prop := T + zone.offset (T - 1) ≤ u ∧ u < T + zone.offset T
def InOverlap (T u : Int) : Prop := T + zone.offset T ≤ u ∧ u < T + zone.offset (T - 1)

variable {zone}

structure ChangeNear (zone : Zone) (u m before after : Int) : Prop where
  left : ConstantOn zone.offset (u - msPerDay) (m - 1) before
  right : ConstantOn zone.offset m (u + msPerDay) after
  before_bounded : -msPerDay < before ∧ before < msPerDay
  after_bounded : -msPerDay < after ∧ after < msPerDay

theorem exists_changeNear (zone : Zone) (u : Int)
    : ∃ m before after, ChangeNear zone u m before after := by
  have hwindow : OneChange zone.offset (u - msPerDay) (u + msPerDay) := by
    apply zone.oneChange
    unfold msPerDay
    omega
  obtain ⟨m, hleft, hright⟩ := hwindow.split
  exact ⟨m, _, _, hleft, hright, zone.bounded _, zone.bounded _⟩

theorem exists_changeNear_both (zone : Zone) (hle : u ≤ w) (hnear : w ≤ u + msPerDay)
    : ∃ m before after, ChangeNear zone u m before after ∧ ChangeNear zone w m before after := by
  have hwindow : OneChange zone.offset (u - msPerDay) (w + msPerDay) := by
    apply zone.oneChange
    unfold msPerDay at *
    omega
  obtain ⟨m, hleft, hright⟩ := hwindow.split
  refine ⟨m, _, _, ⟨hleft, fun t hlow hhigh => ?_, zone.bounded _, zone.bounded _⟩,
    fun t hlow hhigh => ?_, hright, zone.bounded _, zone.bounded _⟩
  . exact hright t hlow (by omega)
  . exact hleft t (by omega) hhigh

section ChangeNear

variable {u m before after : Int} (h : ChangeNear zone u m before after)

include h

theorem ChangeNear.offset_lt (hlow : u - msPerDay ≤ t) (ht : t < m)
    : zone.offset t = before := by
  apply h.left t hlow
  omega

theorem ChangeNear.offset_ge (hhigh : t ≤ u + msPerDay) (ht : m ≤ t)
    : zone.offset t = after :=
  h.right t ht hhigh

theorem ChangeNear.localTimeAt_eq_iff (t : Int)
    : zone.localTimeAt t = u ↔ (t = u - before ∧ t < m) ∨ (t = u - after ∧ m ≤ t) := by
  have hbefore := h.before_bounded
  have hafter := h.after_bounded
  unfold localTimeAt
  constructor
  . intro heq
    have hbounded := zone.bounded t
    rcases lt_or_ge t m with ht | ht
    . have := h.offset_lt (by omega) ht
      left
      omega
    have := h.offset_ge (by omega) ht
    right
    omega
  . rintro (⟨heq, ht⟩ | ⟨heq, ht⟩)
    . rw [h.offset_lt (by omega) ht]
      omega
    . rw [h.offset_ge (by omega) ht]
      omega

theorem ChangeNear.eq_of_changesAt {T : Int} (hlow : u - msPerDay < T) (hhigh : T ≤ u + msPerDay)
    (hT : zone.offset (T - 1) ≠ zone.offset T)
    : T = m := by
  rcases lt_trichotomy T m with hlt | heq | hgt
  . have hleft := h.offset_lt (t := T - 1) (by omega) (by omega)
    have hright := h.offset_lt (t := T) (by omega) hlt
    rw [hleft, hright] at hT
    contradiction
  . exact heq
  . have hleft := h.offset_ge (t := T - 1) (by omega) (by omega)
    have hright := h.offset_ge (t := T) hhigh (by omega)
    rw [hleft, hright] at hT
    contradiction

theorem ChangeNear.offset_change (hlow : u - msPerDay < m) (hhigh : m ≤ u + msPerDay)
    : zone.offset (m - 1) = before ∧ zone.offset m = after := by
  constructor
  . exact h.offset_lt (by omega) (by omega)
  . exact h.offset_ge hhigh le_rfl

theorem ChangeNear.inGap_iff (T : Int)
    : zone.InGap T u ↔ T = m ∧ m + before ≤ u ∧ u < m + after := by
  have hbefore := h.before_bounded
  have hafter := h.after_bounded
  unfold InGap
  constructor
  . rintro ⟨hlow, hhigh⟩
    have := zone.bounded T
    have := zone.bounded (T - 1)
    obtain rfl := h.eq_of_changesAt (T := T) (by omega) (by omega) (by omega)
    obtain ⟨hleft, hright⟩ := h.offset_change (by omega) (by omega)
    omega
  . rintro ⟨rfl, hlow, hhigh⟩
    obtain ⟨hleft, hright⟩ := h.offset_change (by omega) (by omega)
    omega

theorem ChangeNear.inOverlap_iff (T : Int)
    : zone.InOverlap T u ↔ T = m ∧ m + after ≤ u ∧ u < m + before := by
  have hbefore := h.before_bounded
  have hafter := h.after_bounded
  unfold InOverlap
  constructor
  . rintro ⟨hlow, hhigh⟩
    have := zone.bounded T
    have := zone.bounded (T - 1)
    obtain rfl := h.eq_of_changesAt (T := T) (by omega) (by omega) (by omega)
    obtain ⟨hleft, hright⟩ := h.offset_change (by omega) (by omega)
    omega
  . rintro ⟨rfl, hlow, hhigh⟩
    obtain ⟨hleft, hright⟩ := h.offset_change (by omega) (by omega)
    omega

end ChangeNear

theorem repeated_iff_inOverlap (zone : Zone) (u : Int) : zone.Repeated u ↔ ∃ T, zone.InOverlap T u := by
  obtain ⟨m, before, after, h⟩ := exists_changeNear zone u
  simp only [Repeated, h.localTimeAt_eq_iff, h.inOverlap_iff]
  constructor
  . rintro ⟨t, t', hne, ht, ht'⟩
    refine ⟨m, rfl, ?_⟩
    omega
  rintro ⟨T, rfl, hlow, hhigh⟩
  refine ⟨u - before, u - after, ?_⟩
  omega

theorem skipped_iff_inGap (zone : Zone) (u : Int) : zone.Skipped u ↔ ∃ T, zone.InGap T u := by
  obtain ⟨m, before, after, h⟩ := exists_changeNear zone u
  simp only [Skipped, ne_eq, h.localTimeAt_eq_iff, h.inGap_iff]
  constructor
  . intro hskipped
    have hbefore := hskipped (u - before)
    have hafter := hskipped (u - after)
    refine ⟨m, rfl, ?_⟩
    omega
  . rintro ⟨T, rfl, hlow, hhigh⟩ t
    omega

end Zone

-- What ICU is documented to answer for a zone: its offset at an instant; and at a local time the
-- offset of the one instant that has it, or the offset before the change that skips or repeats it.
structure Zone.IsGivenBy (zone : Zone) (timeZone : TimeZone) : Prop where
  getOffset : ∀ t, (timeZone.getOffset t).1 + (timeZone.getOffset t).2 = zone.offset t
  getOffsetFromLocal_once : ∀ t, ¬ zone.Repeated (zone.localTimeAt t) →
    (timeZone.getOffsetFromLocal (zone.localTimeAt t)).1
      + (timeZone.getOffsetFromLocal (zone.localTimeAt t)).2 = zone.offset t
  getOffsetFromLocal_former : ∀ T u, zone.InGap T u ∨ zone.InOverlap T u →
    (timeZone.getOffsetFromLocal u).1 + (timeZone.getOffsetFromLocal u).2 = zone.offset (T - 1)

-- A local time from which on the later offset is the one in force.
def Zone.LocalChangeAt (zone : Zone) (c : Int) : Prop :=
  ∃ T, ChangesAt zone.offset T ∧ c = T + max (zone.offset (T - 1)) (zone.offset T)

def Zone.NoLocalChange (zone : Zone) (a b : Int) : Prop := ∀ c, a < c → c ≤ b → ¬zone.LocalChangeAt c

def lookedUp (t : Int) : Int :=
  if EndOfTime + msPerSecond ≤ t then EndOfTime
  else if t ≤ StartOfTime - msPerSecond then msPerDay
  else if 0 ≤ t then t - t % msPerSecond
  else t + -t % msPerSecond

def utcOffset (timeZone : TimeZone) (t : Int) : Int :=
  (timeZone.getOffset t).1 + (timeZone.getOffset t).2

def localOffset (timeZone : TimeZone) (u : Int) : Int :=
  (timeZone.getOffsetFromLocal u).1 + (timeZone.getOffsetFromLocal u).2

section LocalOffset

variable {zone : Zone} {timeZone : TimeZone} (hzone : zone.IsGivenBy timeZone)

include hzone

theorem localOffset_eq {m before after : Int} (h : zone.ChangeNear u m before after)
    : localOffset timeZone u = if u < m + max before after then before else after := by
  have hcases : (∃ T, zone.InGap T u ∨ zone.InOverlap T u) ∨ ∃ t, zone.localTimeAt t = u ∧ ¬zone.Repeated u := by
    by_cases hrepeated : zone.Repeated u
    . obtain ⟨T, hT⟩ := (zone.repeated_iff_inOverlap u).mp hrepeated
      exact .inl ⟨T, .inr hT⟩
    by_cases hskipped : zone.Skipped u
    . obtain ⟨T, hT⟩ := (zone.skipped_iff_inGap u).mp hskipped
      exact .inl ⟨T, .inl hT⟩
    . unfold Zone.Skipped at hskipped
      push Not at hskipped
      obtain ⟨t, ht⟩ := hskipped
      exact .inr ⟨t, ht, hrepeated⟩
  have hbefore := h.before_bounded
  have hafter := h.after_bounded
  rcases hcases with ⟨T, hT⟩ | ⟨t, rfl, honly⟩
  . have hformer := hzone.getOffsetFromLocal_former T u hT
    rw [h.inGap_iff, h.inOverlap_iff] at hT
    obtain rfl : T = m := by omega
    obtain ⟨hleft, -⟩ := h.offset_change (by omega) (by omega)
    unfold localOffset
    rw [hformer, hleft]
    omega
  . have honce := hzone.getOffsetFromLocal_once t honly
    rw [zone.repeated_iff_inOverlap] at honly
    have hno : ¬(m + after ≤ zone.localTimeAt t ∧ zone.localTimeAt t < m + before) :=
      fun hoverlap => honly ⟨m, h.inOverlap_iff m |>.mpr ⟨rfl, hoverlap⟩⟩
    unfold localOffset
    rw [honce]
    rcases (h.localTimeAt_eq_iff t).mp rfl with ⟨ht, hlt⟩ | ⟨ht, hle⟩
    . have hoffset : zone.offset t = before := by
        unfold Zone.localTimeAt at ht
        omega
      rw [hoffset]
      omega
    . have hoffset : zone.offset t = after := by
        unfold Zone.localTimeAt at ht
        omega
      rw [hoffset]
      omega

theorem localOffset_eq_iff (hle : u ≤ w) (hnear : w ≤ u + msPerDay)
    : localOffset timeZone u = localOffset timeZone w ↔ zone.NoLocalChange u w := by
  obtain ⟨m, before, after, hu, hw⟩ := zone.exists_changeNear_both hle hnear
  have hbefore := hu.before_bounded
  have hafter := hu.after_bounded
  rw [localOffset_eq hzone hu, localOffset_eq hzone hw]
  constructor
  . rintro hsame c hlow hhigh ⟨T, hT, rfl⟩
    have hboundedT := zone.bounded T
    have hboundedT' := zone.bounded (T - 1)
    -- The change is within a day of one of the two times.
    have hm : T = m ∧ zone.offset (m - 1) = before ∧ zone.offset m = after := by
      rcases Int.le_total T (u + msPerDay) with hT' | hT'
      . obtain rfl := hu.eq_of_changesAt (T := T) (by omega) hT' hT
        exact ⟨rfl, hu.offset_change (by omega) hT'⟩
      . obtain rfl := hw.eq_of_changesAt (T := T) (by omega) (by omega) hT
        exact ⟨rfl, hw.offset_change (by omega) (by omega)⟩
    obtain ⟨rfl, hleft, hright⟩ := hm
    unfold ChangesAt at hT
    rw [hleft, hright] at hT hlow hhigh
    rw [if_pos (by omega), if_neg (by omega)] at hsame
    exact hT hsame
  . intro hnone
    by_contra hdiffer
    have hbetween : u < m + max before after ∧ m + max before after ≤ w ∧ before ≠ after := by
      split_ifs at hdiffer <;> omega
    obtain ⟨hleft, hright⟩ : zone.offset (m - 1) = before ∧ zone.offset m = after := by
      rcases Int.le_total m (u + msPerDay) with hm | hm
      . exact hu.offset_change (by omega) hm
      . exact hw.offset_change (by omega) (by omega)
    refine hnone _ hbetween.1 hbetween.2.1 ⟨m, ?_, by rw [hleft, hright]⟩
    unfold ChangesAt
    rw [hleft, hright]
    exact hbetween.2.2

end LocalOffset

theorem computeLocalOffsetMilliseconds_eq (timeZone : TimeZone) (seconds : Int)
    : computeLocalOffsetMilliseconds timeZone seconds = utcOffset timeZone (seconds * msPerSecond) := rfl

theorem computeUTCOffsetMilliseconds_eq (timeZone : TimeZone) (seconds : Int)
    : computeUTCOffsetMilliseconds timeZone seconds = localOffset timeZone (seconds * msPerSecond) := rfl

theorem tdiv_msPerSecond_mul (t : Int)
    : t.tdiv msPerSecond * msPerSecond = if 0 ≤ t then t - t % msPerSecond else t + -t % msPerSecond := by
  unfold msPerSecond
  split
  next hpos =>
    rw [Int.tdiv_eq_ediv_of_nonneg hpos]
    omega
  next hneg =>
    have hopposite : t.tdiv 1000 = -(-t / 1000) := by
      rw [← Int.tdiv_eq_ediv_of_nonneg (by omega), Int.neg_tdiv, Int.neg_neg]
    rw [hopposite]
    omega

theorem toClampedSeconds_mul (t : Int)
    : toClampedSeconds .icu t * msPerSecond = lookedUp t := by
  have hmul := tdiv_msPerSecond_mul t
  unfold toClampedSeconds lookedUp
  generalize t.tdiv msPerSecond = seconds at *
  simp only [DateTimeInfo.MaxTimeT, DateTimeInfo.MinTimeT, EndOfTime, StartOfTime, msPerSecond,
    msPerDay, SecondsPerDay] at *
  omega

theorem toClampedSeconds_mem (t : Int)
    : DateTimeInfo.MinTimeT .icu ≤ toClampedSeconds .icu t ∧ toClampedSeconds .icu t ≤ DateTimeInfo.MaxTimeT .icu := by
  unfold toClampedSeconds
  generalize t.tdiv msPerSecond = seconds
  simp only [DateTimeInfo.MaxTimeT, DateTimeInfo.MinTimeT, EndOfTime, StartOfTime, msPerSecond, SecondsPerDay]
  omega

theorem oneChange_computeLocalOffset {zone : Zone} {timeZone : TimeZone}
    (h : zone.IsGivenBy timeZone)
    : DateTimeInfo.OneChangePerExpansion .icu (computeLocalOffsetMilliseconds timeZone) := by
  have hoffset : ∀ s, computeLocalOffsetMilliseconds timeZone s = zone.offset (s * msPerSecond) := by
    intro s
    rw [computeLocalOffsetMilliseconds_eq]
    exact h.getOffset (s * msPerSecond)
  have hchange : ∀ s, ChangesAt (computeLocalOffsetMilliseconds timeZone) s →
      ChangesAt zone.offset (s * msPerSecond) := by
    intro s hs
    unfold ChangesAt at *
    rw [hoffset, hoffset] at hs
    rw [← zone.offset_wholeSecond (s * msPerSecond - 1)]
    have hsecond : s * msPerSecond - 1 - (s * msPerSecond - 1) % msPerSecond = (s - 1) * msPerSecond := by
      unfold msPerSecond
      omega
    rw [hsecond]
    exact hs
  intro a b _ _ hlength s t has hsb hat htb hs ht
  have hwindow := zone.oneChange (a * msPerSecond) (b * msPerSecond)
  have heq : s * msPerSecond = t * msPerSecond := by
    apply hwindow _ _ _ _ _ _ _ (hchange s hs) (hchange t ht)
    all_goals
      unfold DateTimeInfo.RangeExpansionAmount SecondsPerDay at hlength
      unfold msPerSecond msPerDay at *
      omega
  unfold msPerSecond at heq
  omega

-- The lookup of a local time does not rely on a stretch of the zone in which the local offset changes twice.
def ExpandsOnce (system : System) (info : DateTimeInfo) (u : Int) : Prop :=
  DateTimeInfo.ExpandsOverOneChange .icu (computeUTCOffsetMilliseconds system.timeZone) (toClampedSeconds .icu u)
    (info.acquireLockWithValidTimeZone system).utcRange_

def LookupExpandsOnce (system : System) (info : DateTimeInfo) (lookup : DateTimeInfo.Lookup) : Prop :=
  ∀ u, lookup = .offset u .Local → ExpandsOnce system info u

structure Synced (system : System) (info : DateTimeInfo) : Prop where
  status : info.timeZoneStatus_ = .Valid
  timeZone : info.timeZone_ = system.timeZone
  localRange :
    info.localRange_.Valid .icu (computeLocalOffsetMilliseconds system.timeZone)
  utcRange :
    info.utcRange_.Valid .icu (computeUTCOffsetMilliseconds system.timeZone)

section Lookup

variable {zone : Zone} {system : System} (hzone : zone.IsGivenBy system.timeZone)
variable {info : DateTimeInfo}

theorem synced_updateTimeZone (h : info.timeZoneStatus_ = .NeedsUpdate)
    : Synced system (info.updateTimeZone system) := by
  unfold updateTimeZone
  simp only [h, reduceCtorEq, false_and, ↓reduceIte]
  exact ⟨rfl, rfl, DateTimeInfo.RangeCache.valid_reset, DateTimeInfo.RangeCache.valid_reset⟩

theorem synced_acquireLock (h : info.timeZoneStatus_ = .NeedsUpdate ∨ Synced system info)
    : Synced system (info.acquireLockWithValidTimeZone system) := by
  unfold acquireLockWithValidTimeZone
  rcases h with hstatus | hsynced
  . rw [if_pos (by rw [hstatus]; decide)]
    exact synced_updateTimeZone hstatus
  . rw [if_neg (by rw [hsynced.status]; decide)]
    exact hsynced

include hzone

theorem Synced.offset_UTC (h : Synced system info) (t : Int)
    : (info.internalGetOffsetMilliseconds t .UTC).1 = zone.offset (lookedUp t)
        ∧ Synced system (info.internalGetOffsetMilliseconds t .UTC).2 := by
  obtain ⟨hmin, hmax⟩ := toClampedSeconds_mem t
  obtain ⟨hvalue, hrange⟩ := getOrComputeValue_valid (oneChange_computeLocalOffset hzone) h.localRange hmin hmax
  unfold internalGetOffsetMilliseconds
  simp only [h.timeZone]
  constructor
  . rw [hvalue, computeLocalOffsetMilliseconds_eq, toClampedSeconds_mul]
    exact hzone.getOffset (lookedUp t)
  . exact ⟨h.status, rfl, hrange, h.utcRange⟩

omit hzone

theorem Synced.offset_Local (h : Synced system info) (u : Int)
    (hexpands : DateTimeInfo.ExpandsOverOneChange .icu (computeUTCOffsetMilliseconds system.timeZone)
      (toClampedSeconds .icu u) info.utcRange_)
    : (info.internalGetOffsetMilliseconds u .Local).1 = localOffset system.timeZone (lookedUp u)
        ∧ Synced system (info.internalGetOffsetMilliseconds u .Local).2 := by
  obtain ⟨hmin, hmax⟩ := toClampedSeconds_mem u
  obtain ⟨hvalue, hrange⟩ := getOrComputeValue_spec hexpands h.utcRange hmin hmax
  unfold internalGetOffsetMilliseconds
  simp only [h.timeZone]
  constructor
  . rw [hvalue, computeUTCOffsetMilliseconds_eq, toClampedSeconds_mul]
  . exact ⟨h.status, rfl, h.localRange, hrange⟩

theorem Synced.dstOffset (h : Synced system info) (t : Int)
    : Synced system (info.internalGetDSTOffsetMilliseconds t).2 :=
  ⟨h.status, h.timeZone, h.localRange, h.utcRange⟩

include hzone

theorem synced_afterLookup (h : info.timeZoneStatus_ = .NeedsUpdate ∨ Synced system info) (lookup : DateTimeInfo.Lookup)
    (hexpands : LookupExpandsOnce system info lookup) : Synced system (afterLookup system info lookup) := by
  have hsynced := synced_acquireLock h
  cases lookup with
  | DSTOffset utcMilliseconds => exact hsynced.dstOffset utcMilliseconds
  | standardOffset => exact hsynced
  | offset milliseconds offset =>
    cases offset with
    | UTC => exact (hsynced.offset_UTC hzone milliseconds).right
    | Local => exact (hsynced.offset_Local milliseconds (hexpands milliseconds rfl)).right

theorem synced_afterLookups (lookups : List DateTimeInfo.Lookup)
    (h : info.timeZoneStatus_ = .NeedsUpdate ∨ Synced system info)
    (hexpands : ∀ done lookup, done ++ [lookup] <+: lookups
      → LookupExpandsOnce system (done.foldl (afterLookup system) info) lookup)
    : (lookups.foldl (afterLookup system) info).timeZoneStatus_ = .NeedsUpdate
        ∨ Synced system (lookups.foldl (afterLookup system) info) := by
  induction lookups generalizing info with
  | nil => exact h
  | cons lookup lookups ih =>
    apply ih
    . exact Or.inr (synced_afterLookup hzone h lookup (hexpands [] lookup (List.prefix_append [lookup] lookups)))
    intro done next hpre
    exact hexpands (lookup :: done) next ((List.prefix_cons_inj lookup).mpr hpre)

theorem localTime_eq (h : info.timeZoneStatus_ = .NeedsUpdate ∨ Synced system info) (t : Int)
    : (DateTimeHelper.localTime system (some t) info).1 = some (t + zone.offset (lookedUp t))
        ∧ Synced system (DateTimeHelper.localTime system (some t) info).2 := by
  obtain ⟨hvalue, hsynced⟩ := (synced_acquireLock h).offset_UTC hzone t
  unfold DateTimeHelper.localTime DateTimeHelper.localTZA getOffsetMilliseconds
  dsimp only
  rw [hvalue]
  exact ⟨rfl, hsynced⟩

omit hzone

theorem UTC_eq (h : info.timeZoneStatus_ = .NeedsUpdate ∨ Synced system info)
    (hexpands : ExpandsOnce system info u) (hlow : StartOfTime - msPerDay ≤ u) (hhigh : u ≤ EndOfTime + msPerDay)
    : (DateTimeHelper.UTC system (some u) info).1 = some (u - localOffset system.timeZone (lookedUp u)) := by
  obtain ⟨hvalue, _⟩ := (synced_acquireLock h).offset_Local u hexpands
  unfold DateTimeHelper.UTC DateTimeHelper.localTZA getOffsetMilliseconds
  dsimp only
  rw [if_neg (by omega), hvalue]

end Lookup

theorem offset_lookedUp_eq_iff (zone : Zone) (hlow : StartOfTime ≤ t) (hhigh : t ≤ EndOfTime)
    : zone.offset (lookedUp t) = zone.offset t ↔ ¬ (t < 0 ∧ t % msPerSecond ≠ 0
              ∧ ChangesAt zone.offset (t - t % msPerSecond + msPerSecond)) := by
  have hwhole := zone.offset_wholeSecond t
  rcases lt_or_ge t 0 with hneg | hpos
  . by_cases hsecond : t % msPerSecond = 0
    . have hlookedUp : lookedUp t = t := by
        simp only [lookedUp, EndOfTime, StartOfTime, msPerSecond, msPerDay] at *
        omega
      rw [hlookedUp]
      simp [hsecond]
    have hlookedUp : lookedUp t = t - t % msPerSecond + msPerSecond := by
      simp only [lookedUp, EndOfTime, StartOfTime, msPerSecond, msPerDay] at *
      omega
    have hbefore : t - t % msPerSecond + msPerSecond - 1
        - (t - t % msPerSecond + msPerSecond - 1) % msPerSecond = t - t % msPerSecond := by
      unfold msPerSecond
      omega
    have hlast := zone.offset_wholeSecond (t - t % msPerSecond + msPerSecond - 1)
    rw [hbefore, hwhole] at hlast
    rw [hlookedUp, ChangesAt, ← hlast]
    simp only [hneg, hsecond, ne_eq, not_false_eq_true, true_and, not_not]
    exact eq_comm
  . have hlookedUp : lookedUp t = t - t % msPerSecond := by
      simp only [lookedUp, EndOfTime, StartOfTime, msPerSecond, msPerDay] at *
      omega
    rw [hlookedUp, hwhole]
    simp only [true_iff, not_and]
    omega

-- The local offset that is looked up is the one at the local time.
structure LooksUpLocal (zone : Zone) (timeZone : TimeZone) (u : Int) : Prop where
  early : u ≤ StartOfTime - msPerSecond → localOffset timeZone msPerDay = localOffset timeZone u
  late : EndOfTime + msPerSecond ≤ u → zone.NoLocalChange EndOfTime u
  negative : StartOfTime - msPerSecond < u → u < 0 → zone.NoLocalChange u (u + -u % msPerSecond)
  positive : 0 ≤ u → u < EndOfTime + msPerSecond → zone.NoLocalChange (u - u % msPerSecond) u

theorem looksUpLocal_iff {zone : Zone} {timeZone : TimeZone} (hzone : zone.IsGivenBy timeZone)
    (hhigh : u ≤ EndOfTime + msPerDay)
    : LooksUpLocal zone timeZone u ↔ localOffset timeZone (lookedUp u) = localOffset timeZone u := by
  have hend : 0 < EndOfTime ∧ StartOfTime < 0 ∧ 0 < msPerSecond ∧ msPerSecond < msPerDay := by decide
  by_cases hlate : EndOfTime + msPerSecond ≤ u
  . have hlookedUp : lookedUp u = EndOfTime := if_pos hlate
    rw [hlookedUp, localOffset_eq_iff hzone (by omega) hhigh]
    constructor
    . exact fun h => h.late hlate
    . refine fun h => ⟨fun _ => ?_, fun _ => h, fun _ _ => ?_, fun _ _ => ?_⟩ <;> omega
  by_cases hearly : u ≤ StartOfTime - msPerSecond
  . have hlookedUp : lookedUp u = msPerDay := by
      rw [lookedUp, if_neg hlate, if_pos hearly]
    rw [hlookedUp]
    constructor
    . exact fun h => h.early hearly
    . refine fun h => ⟨fun _ => h, fun _ => ?_, fun _ _ => ?_, fun _ _ => ?_⟩ <;> omega
  by_cases hpos : 0 ≤ u
  . have hlookedUp : lookedUp u = u - u % msPerSecond := by
      rw [lookedUp, if_neg hlate, if_neg hearly, if_pos hpos]
    have hmod := Int.emod_nonneg u hend.2.2.1.ne'
    have hmod' := Int.emod_lt_of_pos u hend.2.2.1
    rw [hlookedUp, localOffset_eq_iff hzone (by omega) (by omega)]
    constructor
    . exact fun h => h.positive hpos (Int.not_le.mp hlate)
    . refine fun h => ⟨fun _ => ?_, fun _ => ?_, fun _ _ => ?_, fun _ _ => h⟩ <;> omega
  . have hlookedUp : lookedUp u = u + -u % msPerSecond := by
      rw [lookedUp, if_neg hlate, if_neg hearly, if_neg hpos]
    have hmod := Int.emod_nonneg (-u) hend.2.2.1.ne'
    have hmod' := Int.emod_lt_of_pos (-u) hend.2.2.1
    rw [hlookedUp, eq_comm, localOffset_eq_iff hzone (by omega) (by omega)]
    constructor
    . exact fun h => h.negative (Int.not_le.mp hearly) (Int.not_le.mp hpos)
    . refine fun h => ⟨fun _ => ?_, fun _ => ?_, fun _ _ => h, fun _ _ => ?_⟩ <;> omega

end SpiderMonkey.DateTime
