import SpiderMonkey.Date.Lemmas.LocalTime

/-!
This module contains when the conversions between time values and local times use the zone offset in
force at the millisecond.
-/

namespace SpiderMonkey.DateTime

open DateTimeInfo
open AtMostOneChange

section Spec

variable (zone : Zone) (timeZone : TimeZone) (system : System) (info : DateTimeInfo) (t u : Int)

structure ConvertsAt : Prop where
  localTime : (DateTimeHelper.localTime system (some t) info).1 = some (zone.localTimeAt t)
  roundTrip : ∀ l info', DateTimeHelper.localTime system (some t) info = (some l, info') →
    ¬ zone.Repeated l → (DateTimeHelper.UTC system (some l) info').1 = some t
  former : ∀ T, zone.InGap T u ∨ zone.InOverlap T u →
    (DateTimeHelper.UTC system (some u) info).1 = some (u - zone.offset (T - 1))

structure LooksUpInForce : Prop where
  utc : ¬ (t < 0 ∧ t % msPerSecond ≠ 0 ∧ ChangesAt zone.offset (t - t % msPerSecond + msPerSecond))
  roundTrip : ¬ zone.Repeated (zone.localTimeAt t) → LooksUpLocal zone timeZone (zone.localTimeAt t)
  former : zone.Repeated u ∨ zone.Skipped u → LooksUpLocal zone timeZone u

-- The conversions to UTC find the cache in a state from which it does not reach over two changes.
structure CallsExpandOnce : Prop where
  roundTrip : ExpandsOnce system (DateTimeHelper.localTime system (some t) info).2 (zone.localTimeAt t)
  former : ExpandsOnce system info u

end Spec

section Converts

variable {zone : Zone} {system : System} (hzone : zone.IsGivenBy system.timeZone) {info : DateTimeInfo}
variable (hinfo : info.timeZoneStatus_ = .NeedsUpdate ∨ Synced system info) {t u : Int}
variable (hcalls : CallsExpandOnce zone system info t u)

include hzone hinfo hcalls

theorem roundTrip_iff (hlow : StartOfTime ≤ t) (hhigh : t ≤ EndOfTime)
    (hlocalTime : (DateTimeHelper.localTime system (some t) info).1 = some (zone.localTimeAt t))
    : (∀ l info', DateTimeHelper.localTime system (some t) info = (some l, info') →
          ¬ zone.Repeated l → (DateTimeHelper.UTC system (some l) info').1 = some t)
        ↔ (¬ zone.Repeated (zone.localTimeAt t) → LooksUpLocal zone system.timeZone (zone.localTimeAt t)) := by
  obtain ⟨_, hsynced⟩ := localTime_eq hzone hinfo t
  have hbounded := zone.bounded t
  have hlocalHigh : zone.localTimeAt t ≤ EndOfTime + msPerDay := by
    unfold Zone.localTimeAt
    omega
  have hUTC := UTC_eq (Or.inr hsynced) hcalls.roundTrip (by unfold Zone.localTimeAt; omega) hlocalHigh
  rw [looksUpLocal_iff hzone hlocalHigh]
  constructor
  . intro hroundTrip honly
    have hback := hroundTrip _ _ (Prod.ext hlocalTime rfl) honly
    rw [hUTC, Option.some.injEq, Zone.localTimeAt] at hback
    have hoffset := hzone.getOffsetFromLocal_once t honly
    unfold localOffset Zone.localTimeAt at *
    omega
  rintro hlookup l info' hpair honly
  rw [hpair, Option.some.injEq] at hlocalTime
  subst hlocalTime
  rw [hpair] at hUTC
  rw [hUTC, hlookup honly]
  have hoffset := hzone.getOffsetFromLocal_once t honly
  unfold localOffset
  rw [hoffset, Zone.localTimeAt, Int.add_sub_cancel]

theorem former_iff (hlow : StartOfTime - msPerDay ≤ u) (hhigh : u ≤ EndOfTime + msPerDay)
    : (∀ T, zone.InGap T u ∨ zone.InOverlap T u →
          (DateTimeHelper.UTC system (some u) info).1 = some (u - zone.offset (T - 1)))
        ↔ (zone.Repeated u ∨ zone.Skipped u → LooksUpLocal zone system.timeZone u) := by
  rw [UTC_eq hinfo hcalls.former hlow hhigh, looksUpLocal_iff hzone hhigh, zone.repeated_iff_inOverlap,
    zone.skipped_iff_inGap]
  constructor
  . intro hformer hbetween
    obtain ⟨T, hT⟩ : ∃ T, zone.InGap T u ∨ zone.InOverlap T u := by
      rcases hbetween with ⟨T, hT⟩ | ⟨T, hT⟩
      . exact ⟨T, Or.inr hT⟩
      . exact ⟨T, Or.inl hT⟩
    have hUTC := hformer T hT
    have hoffset := hzone.getOffsetFromLocal_former T u hT
    rw [Option.some.injEq] at hUTC
    unfold localOffset at *
    omega
  . intro hlookup T hT
    rw [hlookup]
    . have hoffset := hzone.getOffsetFromLocal_former T u hT
      unfold localOffset
      rw [hoffset]
    rcases hT with hgap | hoverlap
    . exact Or.inr ⟨T, hgap⟩
    . exact Or.inl ⟨T, hoverlap⟩

theorem convertsAt_iff (htlow : StartOfTime ≤ t) (hthigh : t ≤ EndOfTime)
    (hulow : StartOfTime - msPerDay ≤ u) (huhigh : u ≤ EndOfTime + msPerDay)
    : ConvertsAt zone system info t u ↔ LooksUpInForce zone system.timeZone t u := by
  have hlocalTime : (DateTimeHelper.localTime system (some t) info).1 = some (zone.localTimeAt t)
      ↔ ¬ (t < 0 ∧ t % msPerSecond ≠ 0 ∧ ChangesAt zone.offset (t - t % msPerSecond + msPerSecond)) := by
    rw [(localTime_eq hzone hinfo t).left, ← offset_lookedUp_eq_iff zone htlow hthigh,
      Option.some.injEq, Zone.localTimeAt, Int.add_right_inj]
  have hformer := former_iff hzone hinfo hcalls hulow huhigh
  constructor
  . intro h
    exact ⟨hlocalTime.mp h.localTime, (roundTrip_iff hzone hinfo hcalls htlow hthigh h.localTime).mp h.roundTrip,
      hformer.mp h.former⟩
  intro h
  have hright := hlocalTime.mpr h.utc
  exact ⟨hright, (roundTrip_iff hzone hinfo hcalls htlow hthigh hright).mpr h.roundTrip, hformer.mpr h.former⟩

end Converts

def setForwardAtEpoch : Zone where
  offset t := if t < 0 then 0 else 3600000
  offset_wholeSecond := by
    intro t
    have hsign : t - t % msPerSecond < 0 ↔ t < 0 := by
      unfold msPerSecond
      omega
    simp only [hsign]
  oneChange := by
    intro a b _
    apply oneChange_of_changesAt_eq
    intro s hs
    unfold ChangesAt at hs
    dsimp only at hs
    show s = 0
    omega
  bounded := by
    intro t
    unfold msPerDay
    omega

def setForwardAtEpochSystem : System where
  standardOffsetSeconds := 0
  timeZone := {
    getOffset := fun t => (0, if t < 0 then 0 else 3600000)
    getOffsetFromLocal := fun u => (0, if u < 3600000 then 0 else 3600000) }

theorem setForwardAtEpoch_isGivenBy
    : setForwardAtEpoch.IsGivenBy setForwardAtEpochSystem.timeZone := by
  constructor
  . intro t
    simp only [setForwardAtEpochSystem, setForwardAtEpoch]
    omega
  . intro t _
    simp only [setForwardAtEpochSystem, setForwardAtEpoch, Zone.localTimeAt]
    omega
  . intro T u h
    simp only [setForwardAtEpochSystem, setForwardAtEpoch, Zone.InGap, Zone.InOverlap] at *
    omega

theorem setForwardAtEpoch_expandsOnce (info : DateTimeInfo) (u : Int)
    : ExpandsOnce setForwardAtEpochSystem info u := by
  have honce : ∀ a b, OneChange (computeUTCOffsetMilliseconds setForwardAtEpochSystem.timeZone) a b := by
    intro a b
    apply oneChange_of_changesAt_eq
    intro s hs
    simp only [ChangesAt, computeUTCOffsetMilliseconds, setForwardAtEpochSystem, msPerSecond] at hs
    show s = 3600
    omega
  exact ⟨fun _ _ _ => honce _ _, fun _ _ _ => honce _ _⟩

def justConstructed : DateTimeInfo where
  timeZoneStatus_ := .NeedsUpdate
  utcToLocalStandardOffsetSeconds_ := 0
  dstRange_ := DateTimeInfo.RangeCache.reset
  utcRange_ := DateTimeInfo.RangeCache.reset
  localRange_ := DateTimeInfo.RangeCache.reset
  timeZone_ := setForwardAtEpochSystem.timeZone

end SpiderMonkey.DateTime
