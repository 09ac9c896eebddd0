import SpiderMonkey.Lib.AtMostOneChange
import SpiderMonkey.Lib.Run
import SpiderMonkey.Vm.Impl.DateTime

/-!
This module contains what the time zone information of a process answers over whole runs of lookups. The invariant of
the caches of zone offsets says what each cached range tells about the offset function, and a query keeps it.
-/

namespace SpiderMonkey.DateTime

namespace DateTimeInfo

open AtMostOneChange

variable {source : ZoneSource} {compute : Int → Int}

def Covers (source : ZoneSource) (compute : Int → Int) (start end_ offset : Int) : Prop :=
  ∀ s, MinTimeT source ≤ s → s ≤ MaxTimeT source → start ≤ s → s ≤ end_ → compute s = offset

structure CachedRange (source : ZoneSource) (compute : Int → Int) (start end_ offset : Int) : Prop where
  assertRange : AssertRange source start end_
  covers : Covers source compute start end_ offset

structure RangeCache.Valid (source : ZoneSource) (compute : Int → Int) (range : RangeCache) : Prop where
  current : CachedRange source compute range.startSeconds range.endSeconds range.offsetMilliseconds
  previous :
    CachedRange source compute range.oldStartSeconds range.oldEndSeconds range.oldOffsetMilliseconds

def OneChangePerExpansion (source : ZoneSource) (compute : Int → Int) : Prop :=
  ∀ a b, MinTimeT source ≤ a → b ≤ MaxTimeT source → b ≤ a + RangeExpansionAmount →
    OneChange compute a b

-- A query that misses both cached ranges and lies within the expansion of the current one expands it over at most one
-- change.
structure ExpandsOverOneChange (source : ZoneSource) (compute : Int → Int) (seconds : Int) (range : RangeCache)
    : Prop where
  toEnd : ¬(range.oldStartSeconds ≤ seconds ∧ seconds ≤ range.oldEndSeconds) → range.endSeconds < seconds
    → seconds ≤ min (range.endSeconds + RangeExpansionAmount) (MaxTimeT source)
    → OneChange compute range.endSeconds (min (range.endSeconds + RangeExpansionAmount) (MaxTimeT source))
  toStart : ¬(range.oldStartSeconds ≤ seconds ∧ seconds ≤ range.oldEndSeconds) → seconds < range.startSeconds
    → max (range.startSeconds - RangeExpansionAmount) (MinTimeT source) ≤ seconds
    → OneChange compute (max (range.startSeconds - RangeExpansionAmount) (MinTimeT source)) range.startSeconds

theorem sentinel_expanded_lt_MinTimeT (source : ZoneSource)
    : INT64_MIN + RangeExpansionAmount < MinTimeT source := by
  cases source <;> decide

theorem RangeExpansionAmount_pos : 0 < RangeExpansionAmount := by decide

section CachedRange

variable {start end_ offset : Int}

theorem cachedRange_sentinel : CachedRange source compute INT64_MIN INT64_MIN 0 := by
  have hlt := sentinel_expanded_lt_MinTimeT source
  have hpos := RangeExpansionAmount_pos
  constructor
  . simp [AssertRange]
  . intro s hmin _ _ hend
    omega

theorem cachedRange_of_constantOn (hmin : MinTimeT source ≤ start) (hle : start ≤ end_)
    (hmax : end_ ≤ MaxTimeT source) (h : ConstantOn compute start end_ offset)
    : CachedRange source compute start end_ offset := by
  have hlt := sentinel_expanded_lt_MinTimeT source
  have hpos := RangeExpansionAmount_pos
  constructor
  . unfold AssertRange
    omega
  . intro s _ _ hstart hend
    exact h s hstart hend

theorem cachedRange_single (hmin : MinTimeT source ≤ s) (hmax : s ≤ MaxTimeT source)
    : CachedRange source compute s s (compute s) :=
  cachedRange_of_constantOn hmin le_rfl hmax (ConstantOn.single compute s)

theorem CachedRange.constantOn (h : CachedRange source compute start end_ offset) (hne : start ≠ INT64_MIN)
    : MinTimeT source ≤ start ∧ start ≤ end_ ∧ end_ ≤ MaxTimeT source ∧ ConstantOn compute start end_ offset := by
  obtain ⟨hle, _, _, hmin, hmax⟩ := h.assertRange
  refine ⟨(hmin hne).left, hle, (hmax hne).right, ?_⟩
  intro s hstart hend
  have := hmin hne
  have := hmax hne
  apply h.covers s <;> omega

end CachedRange

section Expand

variable {seconds : Int} {start end_ offset : Int}
variable (h : CachedRange source compute start end_ offset) (hne : start ≠ INT64_MIN)

section End

variable {newEnd : Int} (hwindow : OneChange compute end_ newEnd) (hmax : newEnd ≤ MaxTimeT source)
variable (hmiss : end_ ≤ seconds) (hreach : seconds ≤ newEnd)

include h hne hwindow hmax hmiss hreach

theorem expandEnd_same (hsame : compute newEnd = offset)
    : compute seconds = offset ∧ CachedRange source compute start newEnd offset := by
  obtain ⟨hminStart, hle, _, hconst⟩ := h.constantOn hne
  have hend : compute end_ = offset := hconst end_ hle le_rfl
  have hright : ConstantOn compute end_ newEnd offset := by
    rw [← hend]
    apply hwindow.constantOn_of_ends_eq
    rw [hend, hsame]
  constructor
  . exact hright seconds hmiss hreach
  . apply cachedRange_of_constantOn hminStart (by omega) hmax
    exact hconst.append hright

theorem expandEnd_beyond (hsame : compute seconds = compute newEnd)
    : CachedRange source compute seconds newEnd (compute seconds) := by
  obtain ⟨hminStart, hle, _, _⟩ := h.constantOn hne
  apply cachedRange_of_constantOn (by omega) hreach hmax
  exact (hwindow.mono hmiss le_rfl).constantOn_of_ends_eq hsame

theorem expandEnd_upTo (hdiffer : compute seconds ≠ compute newEnd)
    : CachedRange source compute start seconds (compute seconds) := by
  obtain ⟨hminStart, hle, _, hconst⟩ := h.constantOn hne
  have hend : compute end_ = offset := hconst end_ hle le_rfl
  have hleft := hwindow.eq_left_of_ne_right hmiss hreach hdiffer
  apply cachedRange_of_constantOn hminStart (by omega) (by omega)
  rw [hleft, hend]
  apply hconst.append
  rw [← hend]
  exact (hwindow.mono le_rfl hreach).constantOn_of_ends_eq hleft.symm

end End

section Start

variable {newStart : Int} (hwindow : OneChange compute newStart start) (hmin : MinTimeT source ≤ newStart)
variable (hmiss : seconds ≤ start) (hreach : newStart ≤ seconds)

include h hne hwindow hmin hmiss hreach

theorem expandStart_same (hsame : compute newStart = offset)
    : compute seconds = offset ∧ CachedRange source compute newStart end_ offset := by
  obtain ⟨_, hle, hmaxEnd, hconst⟩ := h.constantOn hne
  have hstart : compute start = offset := hconst start le_rfl hle
  have hleft : ConstantOn compute newStart start offset := by
    rw [← hsame]
    apply hwindow.constantOn_of_ends_eq
    rw [hstart, hsame]
  constructor
  . exact hleft seconds hreach hmiss
  . apply cachedRange_of_constantOn hmin (by omega) hmaxEnd
    exact hleft.append hconst

theorem expandStart_beyond (hsame : compute seconds = compute newStart)
    : CachedRange source compute newStart seconds (compute seconds) := by
  obtain ⟨_, hle, hmaxEnd, _⟩ := h.constantOn hne
  apply cachedRange_of_constantOn hmin hreach (by omega)
  rw [hsame]
  exact (hwindow.mono le_rfl hmiss).constantOn_of_ends_eq hsame.symm

theorem expandStart_downTo (hdiffer : compute seconds ≠ compute newStart)
    : CachedRange source compute seconds end_ (compute seconds) := by
  obtain ⟨_, hle, hmaxEnd, hconst⟩ := h.constantOn hne
  have hstart : compute start = offset := hconst start le_rfl hle
  have hright := hwindow.eq_right_of_ne_left hreach hmiss hdiffer
  apply cachedRange_of_constantOn (by omega) (by omega) hmaxEnd
  have hmiddle : ConstantOn compute seconds start (compute seconds) :=
    (hwindow.mono hreach le_rfl).constantOn_of_ends_eq hright
  apply hmiddle.append
  rw [hright, hstart]
  exact hconst

end Start

end Expand

theorem RangeCache.valid_reset : RangeCache.reset.Valid source compute :=
  ⟨cachedRange_sentinel, cachedRange_sentinel⟩

theorem start_ne_sentinel_of_reach {start end_ offset seconds : Int}
    (h : CachedRange source compute start end_ offset) (hmin : MinTimeT source ≤ seconds)
    (hreach : seconds ≤ end_ + RangeExpansionAmount)
    : start ≠ INT64_MIN := by
  have hlt := sentinel_expanded_lt_MinTimeT source
  intro hsentinel
  have := h.assertRange.right.left hsentinel
  omega

-- One spec for every state: a range that the function expands over at most one change stays valid.
theorem getOrComputeValue_spec {range : RangeCache} (hexpands : ExpandsOverOneChange source compute seconds range)
    (h : range.Valid source compute) (hmin : MinTimeT source ≤ seconds) (hmax : seconds ≤ MaxTimeT source)
    : (getOrComputeValue source compute seconds range).1 = compute seconds
        ∧ (getOrComputeValue source compute seconds range).2.Valid source compute := by
  unfold getOrComputeValue
  split
  next hhit => exact ⟨(h.current.covers seconds hmin hmax hhit.left hhit.right).symm, h⟩
  next hmiss =>
  split
  next hhit => exact ⟨(h.previous.covers seconds hmin hmax hhit.left hhit.right).symm, h⟩
  next hold =>
  dsimp only
  split
  next hstart =>
    split
    next hreach =>
      have hne := start_ne_sentinel_of_reach h.current hmin (by omega)
      have hafter : range.endSeconds < seconds := by omega
      have hwindow := hexpands.toEnd hold hafter hreach
      split
      next hsame =>
        obtain ⟨hvalue, hrange⟩ :=
          expandEnd_same h.current hne hwindow (min_le_right _ _) hafter.le hreach hsame
        exact ⟨hvalue.symm, hrange, h.current⟩
      next =>
      split
      next hsame =>
        exact ⟨rfl, expandEnd_beyond h.current hne hwindow (min_le_right _ _) hafter.le hreach hsame, h.current⟩
      next hdiffer =>
        exact ⟨rfl, expandEnd_upTo h.current hne hwindow (min_le_right _ _) hafter.le hreach hdiffer, h.current⟩
    next => exact ⟨rfl, cachedRange_single hmin hmax, h.current⟩
  next hstart =>
    have hlt := sentinel_expanded_lt_MinTimeT source
    have hpos := RangeExpansionAmount_pos
    have hne : range.startSeconds ≠ INT64_MIN := by omega
    have hbefore : seconds < range.startSeconds := by omega
    split
    next hreach =>
      have hwindow := hexpands.toStart hold hbefore hreach
      split
      next hsame =>
        obtain ⟨hvalue, hrange⟩ :=
          expandStart_same h.current hne hwindow (le_max_right _ _) hbefore.le hreach hsame
        exact ⟨hvalue.symm, hrange, h.current⟩
      next =>
      split
      next hsame =>
        exact ⟨rfl, expandStart_beyond h.current hne hwindow (le_max_right _ _) hbefore.le hreach hsame, h.current⟩
      next hdiffer =>
        exact ⟨rfl, expandStart_downTo h.current hne hwindow (le_max_right _ _) hbefore.le hreach hdiffer, h.current⟩
    next => exact ⟨rfl, cachedRange_single hmin hmax, h.current⟩

theorem OneChangePerExpansion.expands (hcompute : OneChangePerExpansion source compute) {range : RangeCache}
    (h : range.Valid source compute) (hmin : MinTimeT source ≤ seconds)
    : ExpandsOverOneChange source compute seconds range := by
  have hlt := sentinel_expanded_lt_MinTimeT source
  have hpos := RangeExpansionAmount_pos
  constructor
  . intro _ _ hreach
    have hne := start_ne_sentinel_of_reach h.current hmin (by omega)
    obtain ⟨hminStart, hle, _, _⟩ := h.current.constantOn hne
    apply hcompute <;> omega
  . intro _ hbefore _
    obtain ⟨_, hle, hmaxEnd, _⟩ := h.current.constantOn (by omega)
    apply hcompute <;> omega

theorem getOrComputeValue_valid (hcompute : OneChangePerExpansion source compute)
    {range : RangeCache} (h : range.Valid source compute) (hmin : MinTimeT source ≤ seconds)
    (hmax : seconds ≤ MaxTimeT source)
    : (getOrComputeValue source compute seconds range).1 = compute seconds
        ∧ (getOrComputeValue source compute seconds range).2.Valid source compute :=
  getOrComputeValue_spec (hcompute.expands h hmin) h hmin hmax

theorem getOrComputeValues_transparent (source : ZoneSource) (compute : Int → Int)
    (hcompute : OneChangePerExpansion source compute) (queries : List Int)
    (hqueries : ∀ seconds ∈ queries, MinTimeT source ≤ seconds ∧ seconds ≤ MaxTimeT source)
    : (getOrComputeValues source compute queries RangeCache.reset).1 = queries.map compute
        ∧ (getOrComputeValues source compute queries RangeCache.reset).2.Valid source compute := by
  unfold getOrComputeValues
  apply Run.mapM_eq_map _ hqueries RangeCache.valid_reset
  intro range seconds ⟨hmin, hmax⟩ h
  exact getOrComputeValue_valid hcompute h hmin hmax

def summerTimeFrom (change : Int) (seconds : Int) : Int :=
  if seconds < change then 0 else 3600000

theorem oneChangePerExpansion_summerTimeFrom (source : ZoneSource) (change : Int)
    : OneChangePerExpansion source (summerTimeFrom change) := by
  intro a b _ _ _
  apply oneChange_of_changesAt_eq
  intro s h
  unfold ChangesAt summerTimeFrom at h
  show s = change
  omega

theorem getOrComputeValues_transparent_summerTime
    : (getOrComputeValues .icu (summerTimeFrom 1585443600) [1585443599, 1585443600, 1585000000, 0]
        RangeCache.reset).1 = [0, 3600000, 0, 0] := by
  rw [(getOrComputeValues_transparent .icu _ (oneChangePerExpansion_summerTimeFrom .icu 1585443600)
    [1585443599, 1585443600, 1585000000, 0] (by decide)).left]
  decide

end DateTimeInfo

end SpiderMonkey.DateTime
