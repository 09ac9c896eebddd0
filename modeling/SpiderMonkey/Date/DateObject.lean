import SpiderMonkey.Date.Lemmas.LocalTime

/-!
This module contains when the local getters of a date object answer for the zone in force: exactly when the zones that
the system takes can be told apart by their standard offsets. The two layers of caches come first: the time zone
information, which was read from one zone, and the slots, which were filled under one.
-/

namespace SpiderMonkey.Date

open DateTime

def localTimeUnder (timeZone : TimeZone) (t : Int) : Int :=
  t + DateTimeInfo.computeLocalOffsetMilliseconds timeZone (DateTimeInfo.toClampedSeconds .icu t)

namespace DateObject

def fillUnder (timeZone : TimeZone) (obj : DateObject) : DateObject :=
  match obj.utcTime with
  | none => obj.setComponents (.double none)
  | some t => obj.setLocalTime (localTimeUnder timeZone t)

theorem read_eq_of_fillUnder {timeZone : TimeZone} {obj : DateObject}
    (h : obj.fillUnder timeZone = obj) (getter : Getter)
    : getter.read obj = getter.read ((newDateObject obj.utcTime).fillUnder timeZone) := by
  rw [← h]
  unfold fillUnder
  cases hutc : obj.utcTime with
  | none => cases getter <;> simp [Getter.read, newDateObject, setUTCTime, setComponents, hutc]
  | some t =>
    cases getter <;> simp [Getter.read, newDateObject, setUTCTime, setComponents, setLocalTime, hutc]

structure FilledUnder (system : System) (obj : DateObject) : Prop where
  standardOffset : obj.utcTimeZoneOffset = .int32 system.standardOffsetSeconds
  slots : obj.fillUnder system.timeZone = obj

end DateObject

structure ReadFrom (system : System) (info : DateTimeInfo) : Prop where
  timeZone : info.timeZone_ = system.timeZone
  standardOffset : info.utcToLocalStandardOffsetSeconds_ = system.standardOffsetSeconds
  localRange :
    info.localRange_.Valid .icu (DateTimeInfo.computeLocalOffsetMilliseconds system.timeZone)

-- While the time zone information is valid the zone it was read from has the standard offset of the
-- system's.
def InfoRead (zones : Set System) (system : System) (info : DateTimeInfo) : Prop :=
  info.timeZoneStatus_ = .NeedsUpdate
    ∨ ∃ zone ∈ zones, ReadFrom zone info
        ∧ (info.timeZoneStatus_ = .Valid → zone.standardOffsetSeconds = system.standardOffsetSeconds)

def ChangeOnce (zones : Set System) : Prop :=
  ∀ system ∈ zones, DateTimeInfo.OneChangePerExpansion .icu
    (DateTimeInfo.computeLocalOffsetMilliseconds system.timeZone)

section Info

variable {zones : Set System} {system : System} {info : DateTimeInfo}

theorem readFrom_updateTimeZone (system : System) (info : DateTimeInfo) (h : ¬ (info.timeZoneStatus_ = .UpdateIfChanged
      ∧ system.standardOffsetSeconds = info.utcToLocalStandardOffsetSeconds_))
    : ReadFrom system (info.updateTimeZone system) := by
  unfold DateTimeInfo.updateTimeZone
  dsimp only
  rw [if_neg h]
  exact ⟨rfl, rfl, DateTimeInfo.RangeCache.valid_reset⟩

theorem updateTimeZone_status (system : System) (info : DateTimeInfo)
    : (info.updateTimeZone system).timeZoneStatus_ = .Valid := by
  unfold DateTimeInfo.updateTimeZone
  dsimp only
  split <;> rfl

theorem infoRead_acquireLock (hsystem : system ∈ zones) (h : InfoRead zones system info)
    : (info.acquireLockWithValidTimeZone system).timeZoneStatus_ = .Valid
        ∧ ∃ zone ∈ zones, ReadFrom zone (info.acquireLockWithValidTimeZone system)
            ∧ zone.standardOffsetSeconds = system.standardOffsetSeconds := by
  unfold DateTimeInfo.acquireLockWithValidTimeZone
  split
  next hstatus =>
    refine ⟨updateTimeZone_status system info, ?_⟩
    by_cases hkeep : info.timeZoneStatus_ = .UpdateIfChanged
        ∧ system.standardOffsetSeconds = info.utcToLocalStandardOffsetSeconds_
    . rcases h with hneeds | ⟨zone, hzone, hread, _⟩
      . rw [hneeds] at hkeep
        simp at hkeep
      refine ⟨zone, hzone, ?_, ?_⟩
      . unfold DateTimeInfo.updateTimeZone
        dsimp only
        rw [if_pos hkeep]
        exact ⟨hread.timeZone, hread.standardOffset, hread.localRange⟩
      . rw [hkeep.right, hread.standardOffset]
    . exact ⟨system, hsystem, readFrom_updateTimeZone system info hkeep, rfl⟩
  next hstatus =>
    rw [ne_eq, not_not] at hstatus
    refine ⟨hstatus, ?_⟩
    rcases h with hneeds | ⟨zone, hzone, hread, hvalid⟩
    . rw [hneeds] at hstatus
      contradiction
    . exact ⟨zone, hzone, hread, hvalid hstatus⟩

theorem infoRead_internalResetTimeZone (h : InfoRead zones system info) (system' : System) (mode : ResetTimeZoneMode)
    : InfoRead zones system' (info.internalResetTimeZone mode) := by
  unfold DateTimeInfo.internalResetTimeZone
  split
  next hneeds => exact Or.inl hneeds
  next hneeds =>
    rcases h with hneeds' | ⟨zone, hzone, hread, _⟩
    . contradiction
    split
    next => exact Or.inl rfl
    next =>
      right
      refine ⟨zone, hzone, ⟨hread.timeZone, hread.standardOffset, hread.localRange⟩, ?_⟩
      intro hvalid
      contradiction

theorem localTime_readFrom (honce : ChangeOnce zones) (hzone : zone ∈ zones)
    (hread : ReadFrom zone info) (hstatus : info.timeZoneStatus_ = .Valid) (system : System) (t : Int)
    : (DateTimeHelper.localTime system (some t) info).1 = some (localTimeUnder zone.timeZone t)
        ∧ ReadFrom zone (DateTimeHelper.localTime system (some t) info).2
        ∧ (DateTimeHelper.localTime system (some t) info).2.timeZoneStatus_ = .Valid := by
  obtain ⟨hmin, hmax⟩ := toClampedSeconds_mem t
  obtain ⟨hvalue, hrange⟩ :=
    DateTimeInfo.getOrComputeValue_valid (honce zone hzone) hread.localRange hmin hmax
  unfold DateTimeHelper.localTime DateTimeHelper.localTZA DateTimeInfo.getOffsetMilliseconds
    DateTimeInfo.acquireLockWithValidTimeZone
  rw [if_neg (by rw [hstatus]; decide)]
  unfold DateTimeInfo.internalGetOffsetMilliseconds localTimeUnder
  simp only [hread.timeZone, hvalue]
  exact ⟨trivial, ⟨rfl, hread.standardOffset, hrange⟩, hstatus⟩

end Info

section Fill

variable {zones : Set System} {times : Set Int} {system : System} {info : DateTimeInfo}
variable {obj : DateObject}

theorem fillLocalTimeSlots_filledUnder (honce : ChangeOnce zones) (hsystem : system ∈ zones)
    (hinfo : InfoRead zones system info) (hobj : obj.localTime = .undefined ∨ ∃ zone ∈ zones, obj.FilledUnder zone)
    : (∃ zone ∈ zones, zone.standardOffsetSeconds = system.standardOffsetSeconds
          ∧ (obj.fillLocalTimeSlots system info).1.FilledUnder zone)
        ∧ (obj.fillLocalTimeSlots system info).1.utcTime = obj.utcTime
        ∧ InfoRead zones system (obj.fillLocalTimeSlots system info).2 := by
  obtain ⟨hstatus, zone, hzone, hread, hoffset⟩ := infoRead_acquireLock hsystem hinfo
  unfold DateObject.fillLocalTimeSlots DateTimeInfo.utcToLocalStandardOffsetSeconds
  dsimp only
  generalize info.acquireLockWithValidTimeZone system = info at *
  have hinfo' : InfoRead zones system info := Or.inr ⟨zone, hzone, hread, fun _ => hoffset⟩
  rw [hread.standardOffset]
  split
  next hcached =>
    refine ⟨?_, rfl, hinfo'⟩
    rcases hobj with hundefined | ⟨filled, hfilled, hunder⟩
    . exact absurd hundefined hcached.left
    refine ⟨filled, hfilled, ?_, hunder⟩
    have hkey := hunder.standardOffset
    rw [hcached.right, SlotValue.int32.injEq] at hkey
    rw [← hkey, hoffset]
  next =>
    cases hutc : obj.utcTime with
    | none =>
      exact ⟨⟨zone, hzone, hoffset, rfl, rfl⟩, rfl, hinfo'⟩
    | some t =>
      obtain ⟨hvalue, hread', hstatus'⟩ := localTime_readFrom honce hzone hread hstatus system t
      generalize DateTimeHelper.localTime system (some t) info = result at *
      obtain ⟨value, info'⟩ := result
      dsimp only at hvalue hread' hstatus' ⊢
      subst hvalue
      exact ⟨⟨zone, hzone, hoffset, rfl, rfl⟩, rfl, Or.inr ⟨zone, hzone, hread', fun _ => hoffset⟩⟩

end Fill

structure DateState.Inv (zones : Set System) (times : Set Int) (state : DateState) : Prop where
  system_mem : state.system ∈ zones
  info : InfoRead zones state.system state.info
  slots : state.obj.localTime = .undefined ∨ ∃ zone ∈ zones, state.obj.FilledUnder zone
  utcTime_mem : ∀ t, state.obj.utcTime = some t → t ∈ times

def DateState.Event.Within (zones : Set System) (times : Set Int) : Event → Prop
  | .setUTCTime t => ∀ x, t = some x → x ∈ times
  | .changeTimeZone system _ => system ∈ zones
  | .get _ => True

section Run

variable {zones : Set System} {times : Set Int} {state : DateState}

theorem DateState.inv_get (honce : ChangeOnce zones) (h : state.Inv zones times) (getter : DateObject.Getter)
    : (state.get getter).2.Inv zones times := by
  obtain ⟨⟨zone, hzone, _, hfilled⟩, hutc, hinfo⟩ :=
    fillLocalTimeSlots_filledUnder honce h.system_mem h.info h.slots
  constructor
  . exact h.system_mem
  . exact hinfo
  . exact Or.inr ⟨zone, hzone, hfilled⟩
  intro t ht
  apply h.utcTime_mem
  rw [← hutc]
  exact ht

theorem DateState.inv_step (honce : ChangeOnce zones) (h : state.Inv zones times) (event : Event)
    (hevent : event.Within zones times)
    : (state.step event).Inv zones times := by
  cases event with
  | setUTCTime t => exact ⟨h.system_mem, h.info, Or.inl rfl, hevent⟩
  | changeTimeZone system mode =>
    exact ⟨hevent, infoRead_internalResetTimeZone h.info system mode, h.slots, h.utcTime_mem⟩
  | get getter => exact inv_get honce h getter

theorem DateState.inv_run (honce : ChangeOnce zones) (h : state.Inv zones times) (events : List Event)
    (hevents : ∀ event ∈ events, event.Within zones times)
    : (events.foldl step state).Inv zones times := by
  induction events generalizing state with
  | nil => exact h
  | cons event events ih =>
    apply ih
    . exact inv_step honce h event (hevents event List.mem_cons_self)
    . intro e he
      exact hevents e (List.mem_cons_of_mem event he)

theorem DateState.inv_new {system : System} (hsystem : system ∈ zones) {info : DateTimeInfo}
    (hinfo : info.timeZoneStatus_ = .NeedsUpdate) (ht : ∀ x, t = some x → x ∈ times)
    : DateState.Inv zones times ⟨system, info, DateObject.newDateObject t⟩ :=
  ⟨hsystem, Or.inl hinfo, Or.inl rfl, ht⟩

end Run

def fieldUnder (timeZone : TimeZone) (utcTime : Option Int) (getter : DateObject.Getter) : SlotValue :=
  getter.read ((DateObject.newDateObject utcTime).fillUnder timeZone)

def DateState.systemZone (state : DateState) : TimeZone := state.system.timeZone
def DateState.lookupZone (state : DateState) : TimeZone :=
  (state.info.acquireLockWithValidTimeZone state.system).timeZone_

def SameOffsets (times : Set Int) (timeZone timeZone' : TimeZone) : Prop :=
  ∀ t ∈ times, localTimeUnder timeZone t = localTimeUnder timeZone' t

def GettersCurrent (inForce : DateState → TimeZone) (zones : Set System) (times : Set Int) : Prop :=
  ∀ (system : System) (info : DateTimeInfo) (t : Option Int) (events : List DateState.Event)
    (getter : DateObject.Getter), system ∈ zones → info.timeZoneStatus_ = .NeedsUpdate →
    (∀ x, t = some x → x ∈ times) → (∀ event ∈ events, event.Within zones times) →
    let state := events.foldl DateState.step ⟨system, info, DateObject.newDateObject t⟩
    (state.get getter).1 = fieldUnder (inForce state) state.obj.utcTime getter

def SameOffsetsByStandard (zones : Set System) (times : Set Int) : Prop :=
  ∀ system ∈ zones, ∀ system' ∈ zones,
    system.standardOffsetSeconds = system'.standardOffsetSeconds →
    SameOffsets times system.timeZone system'.timeZone

theorem get_eq_fieldUnder (honce : ChangeOnce zones)
    (hsame : SameOffsetsByStandard zones times) {state : DateState} (h : state.Inv zones times)
    {current : System} (hcurrent : current ∈ zones)
    (hstandard : current.standardOffsetSeconds = state.system.standardOffsetSeconds) (getter : DateObject.Getter)
    : (state.get getter).1 = fieldUnder current.timeZone state.obj.utcTime getter := by
  obtain ⟨⟨zone, hzone, hoffset, hfilled⟩, hutc, _⟩ :=
    fillLocalTimeSlots_filledUnder honce h.system_mem h.info h.slots
  have hagree := hsame zone hzone current hcurrent (hoffset.trans hstandard.symm)
  have hread := DateObject.read_eq_of_fillUnder hfilled.slots getter
  unfold DateState.get fieldUnder
  dsimp only
  rw [hread, hutc]
  cases htime : state.obj.utcTime with
  | none => rfl
  | some t =>
    have hlocal := hagree t (h.utcTime_mem t htime)
    simp only [DateObject.fillUnder, DateObject.newDateObject, DateObject.setUTCTime, hlocal]

theorem get_filledUnder {zone system : System} {info : DateTimeInfo} {obj : DateObject}
    (hstatus : info.timeZoneStatus_ = .NeedsUpdate) (hfilled : obj.FilledUnder zone) (hutc : obj.utcTime = some t)
    (hoffset : zone.standardOffsetSeconds = system.standardOffsetSeconds) (getter : DateObject.Getter)
    : (DateState.get ⟨system, info, obj⟩ getter).1 = getter.read obj := by
  have hupdated : (info.acquireLockWithValidTimeZone system).utcToLocalStandardOffsetSeconds_
      = zone.standardOffsetSeconds := by
    have hread := readFrom_updateTimeZone system info (by rw [hstatus]; simp)
    unfold DateTimeInfo.acquireLockWithValidTimeZone
    rw [if_pos (by rw [hstatus]; decide), hread.standardOffset, hoffset]
  have hlocal : obj.localTime ≠ .undefined := by
    rw [← hfilled.slots, DateObject.fillUnder, hutc]
    simp [DateObject.setLocalTime]
  unfold DateState.get DateObject.fillLocalTimeSlots DateTimeInfo.utcToLocalStandardOffsetSeconds
  dsimp only
  rw [hupdated, if_pos ⟨hlocal, hfilled.standardOffset⟩]

theorem sameOffsets_of_gettersCurrent (honce : ChangeOnce zones)
    (hinForce : ∀ state : DateState, state.info.timeZoneStatus_ = .NeedsUpdate → inForce state = state.system.timeZone)
    (hcurrent : GettersCurrent inForce zones times)
    : SameOffsetsByStandard zones times := by
  intro system hsystem system' hsystem' hoffset t ht
  let info : DateTimeInfo := ⟨.NeedsUpdate, 0, DateTimeInfo.RangeCache.reset,
    DateTimeInfo.RangeCache.reset, DateTimeInfo.RangeCache.reset, system.timeZone⟩
  have hanswer := hcurrent system info (some t)
    [.get .getTimezoneOffset, .changeTimeZone system' .ResetEvenIfOffsetUnchanged] .getTimezoneOffset
    hsystem rfl (by simpa using ht) (by simp [DateState.Event.Within, hsystem'])
  have honly : ChangeOnce {system} := by
    intro s hs
    rw [hs]
    exact honce system hsystem
  obtain ⟨⟨zone, rfl, _, hfilled⟩, hutc, _⟩ := @fillLocalTimeSlots_filledUnder {system} system info
    (DateObject.newDateObject (some t)) honly (Set.mem_singleton system) (Or.inl rfl) (Or.inl rfl)
  simp only [List.foldl_cons, List.foldl_nil, DateState.step, DateState.get] at hanswer
  generalize (DateObject.newDateObject (some t)).fillLocalTimeSlots zone info = filled at *
  have hreset : (filled.2.internalResetTimeZone .ResetEvenIfOffsetUnchanged).timeZoneStatus_ = .NeedsUpdate := by
    unfold DateTimeInfo.internalResetTimeZone
    split
    next hneeds => exact hneeds
    next => rfl
  have hstale := get_filledUnder hreset hfilled hutc hoffset .getTimezoneOffset
  unfold DateState.get at hstale
  dsimp only at hstale
  rw [hstale, DateObject.read_eq_of_fillUnder hfilled.slots, hutc, hinForce _ hreset] at hanswer
  have hminutes : ((t : ℚ) - localTimeUnder zone.timeZone t) / 60000
      = ((t : ℚ) - localTimeUnder system'.timeZone t) / 60000 := by
    simpa only [fieldUnder, DateObject.Getter.read, DateObject.fillUnder, DateObject.newDateObject,
      DateObject.setUTCTime, DateObject.setLocalTime, SlotValue.double.injEq, Option.some.injEq]
      using hanswer
  have hsame : ((localTimeUnder zone.timeZone t : ℤ) : ℚ) = (localTimeUnder system'.timeZone t : ℤ) := by
    linarith
  exact_mod_cast hsame

theorem lookupZone_needsUpdate (state : DateState) (hstatus : state.info.timeZoneStatus_ = .NeedsUpdate)
    : state.lookupZone = state.system.timeZone := by
  have hread := readFrom_updateTimeZone state.system state.info (by rw [hstatus]; simp)
  unfold DateState.lookupZone DateTimeInfo.acquireLockWithValidTimeZone
  rw [if_pos (by rw [hstatus]; decide), hread.timeZone]

theorem getters_current_iff (zones : Set System) (times : Set Int) (honce : ChangeOnce zones)
    : (GettersCurrent DateState.systemZone zones times ↔ SameOffsetsByStandard zones times)
        ∧ (GettersCurrent DateState.lookupZone zones times ↔ SameOffsetsByStandard zones times) := by
  constructor
  . constructor
    . intro hcurrent
      exact sameOffsets_of_gettersCurrent honce (fun _ _ => rfl) hcurrent
    intro hsame system info t events getter hsystem hinfo ht hevents
    have hinv := DateState.inv_run honce (DateState.inv_new hsystem hinfo ht) events hevents
    exact get_eq_fieldUnder honce hsame hinv hinv.system_mem rfl getter
  constructor
  . intro hcurrent
    exact sameOffsets_of_gettersCurrent honce lookupZone_needsUpdate hcurrent
  intro hsame system info t events getter hsystem hinfo ht hevents state
  have hinv := DateState.inv_run honce (DateState.inv_new hsystem hinfo ht) events hevents
  obtain ⟨_, zone, hzone, hread, hstandard⟩ := infoRead_acquireLock hinv.system_mem hinv.info
  have hlookup : state.lookupZone = zone.timeZone := hread.timeZone
  rw [hlookup]
  exact get_eq_fieldUnder honce hsame hinv hzone hstandard getter

def standardTime : System := ⟨0, ⟨fun _ => (0, 0), fun _ => (0, 0)⟩⟩
def summerTime : System := ⟨0, ⟨fun _ => (0, 3600000), fun _ => (0, 3600000)⟩⟩

def unread : DateTimeInfo :=
  ⟨.NeedsUpdate, 0, DateTimeInfo.RangeCache.reset, DateTimeInfo.RangeCache.reset,
    DateTimeInfo.RangeCache.reset, standardTime.timeZone⟩

theorem getHours_stale_after_reset
    : (([DateState.Event.get .getHours, .changeTimeZone summerTime .ResetEvenIfOffsetUnchanged].foldl
          DateState.step ⟨standardTime, unread, DateObject.newDateObject (some 0)⟩).get .getHours).1
        ≠ fieldUnder summerTime.timeZone (some 0) .getHours := by
  decide +kernel

def fiveHoursBehind : System := ⟨-18000, ⟨fun _ => (-18000000, 3600000), fun _ => (-18000000, 3600000)⟩⟩

theorem changeOnce_of_fixedOffsets : ChangeOnce {standardTime, fiveHoursBehind} := by
  rintro system (rfl | rfl) a b _ _ _ s t _ _ _ _ hs _
  . exact absurd rfl hs
  . exact absurd rfl hs

theorem getters_current_iff_fixedOffsets
    : GettersCurrent DateState.systemZone {standardTime, fiveHoursBehind} {0, 946684800000} := by
  rw [(getters_current_iff {standardTime, fiveHoursBehind} {0, 946684800000} changeOnce_of_fixedOffsets).left]
  rintro system (rfl | rfl) system' (rfl | rfl) hstandard t _
  . rfl
  . exact absurd hstandard (by decide)
  . exact absurd hstandard (by decide)
  . rfl

end SpiderMonkey.Date
