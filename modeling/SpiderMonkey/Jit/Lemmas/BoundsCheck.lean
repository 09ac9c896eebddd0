import SpiderMonkey.Jit.Impl.BoundsCheck
import SpiderMonkey.Jit.Lemmas.LinearSum
import SpiderMonkey.Lib.Run

/-!
This module contains the verification of the elimination of bounds checks, and of the machine code
of a check.
-/

namespace SpiderMonkey

open Function

theorem SafeAdd_eq_none {a b : Int32} (h : SafeAdd a b = none)
    : a.toInt + b.toInt < -2 ^ 31 ∨ 2 ^ 31 ≤ a.toInt + b.toInt := by
  unfold SafeAdd at h
  split at h
  next => contradiction
  next hne =>
    rw [Int32.toInt_add] at hne
    by_contra hc
    apply hne
    apply Int.bmod_eq_of_le <;> omega

theorem toInt_min (a b : Int32) : (min a b).toInt = min a.toInt b.toInt := by
  rw [show min a b = if a ≤ b then a else b from rfl]
  split
  next h =>
    rw [Int32.le_iff_toInt_le] at h
    exact (Int.min_eq_left h).symm
  next h =>
    rw [Int32.le_iff_toInt_le] at h
    omega

theorem toInt_max (a b : Int32) : (max a b).toInt = max a.toInt b.toInt := by
  rw [show max a b = if a ≤ b then b else a from rfl]
  split
  next h =>
    rw [Int32.le_iff_toInt_le] at h
    exact (Int.max_eq_right h).symm
  next h =>
    rw [Int32.le_iff_toInt_le] at h
    omega

def wraps (x : Int) : Int := (x + 2 ^ 31) / 2 ^ 32

theorem toInt_add_eq (a b : Int32)
    : (a + b).toInt = a.toInt + b.toInt - 2 ^ 32 * wraps (a.toInt + b.toInt) := by
  rw [Int32.toInt_add]
  unfold wraps
  simp only [Int.bmod_def]
  omega

section MachineCode

variable {min max index length : Int32}

theorem belowUnsigned_iff (hlength : 0 ≤ length.toInt) (temp : Int32)
    : belowUnsigned temp length = true ↔ 0 ≤ temp.toInt ∧ temp.toInt < length.toInt := by
  unfold belowUnsigned
  rw [decide_eq_true_iff, UInt32.lt_iff_toBitVec_lt, BitVec.lt_def, Int32.toBitVec_toUInt32, Int32.toBitVec_toUInt32]
  have htemp : temp.toInt = temp.toBitVec.toInt := rfl
  have hlen : length.toInt = length.toBitVec.toInt := rfl
  rw [BitVec.toInt_eq_toNat_cond] at htemp hlen
  have h₁ := temp.toBitVec.isLt
  have h₂ := length.toBitVec.isLt
  split at htemp <;> split at hlen <;> omega

theorem belowUnsigned_add_iff (hlength : 0 ≤ length.toInt) {temp : Int32} (hmax : 0 ≤ max.toInt)
    : belowUnsigned (temp + max) length = true
        ↔ 0 ≤ temp.toInt + max.toInt ∧ temp.toInt + max.toInt < length.toInt := by
  rw [belowUnsigned_iff hlength, toInt_add_eq]
  have h₁ := temp.le_toInt
  have h₂ := temp.toInt_lt
  have h₃ := max.toInt_lt
  have h₄ := length.toInt_lt
  unfold wraps
  omega

theorem addMaximum_belowUnsigned_iff (hlength : 0 ≤ length.toInt) {temp : Int32}
    : (∃ t, addMaximum max temp = some t ∧ belowUnsigned t length = true)
        ↔ 0 ≤ temp.toInt + max.toInt ∧ temp.toInt + max.toInt < length.toInt := by
  unfold addMaximum
  split
  next h =>
    subst h
    simp only [Option.some.injEq, exists_eq_left', Int32.toInt_zero, Int.add_zero]
    exact belowUnsigned_iff hlength temp
  next hne =>
    split
    next hneg =>
      rw [Int32.lt_iff_toInt_lt, Int32.toInt_zero] at hneg
      unfold branchAdd32
      constructor
      . rintro ⟨t, ht, hbelow⟩
        rw [belowUnsigned_iff hlength, SafeAdd_eq_some.mp ht] at hbelow
        exact hbelow
      intro h
      cases hadd : SafeAdd temp max with
      | none =>
        have := SafeAdd_eq_none hadd
        have := length.toInt_lt
        omega
      | some t =>
        refine ⟨t, rfl, ?_⟩
        rw [belowUnsigned_iff hlength, SafeAdd_eq_some.mp hadd]
        exact h
    next hpos =>
      rw [Int32.lt_iff_toInt_lt, Int32.toInt_zero] at hpos
      simp only [Option.some.injEq, exists_eq_left']
      exact belowUnsigned_add_iff hlength (by omega)

theorem underflowCheckMin_of_some {temp m : Int32}
    (h : underflowCheckMin min max index = some (temp, m))
    : 0 ≤ index.toInt + min.toInt ∧ temp.toInt + m.toInt = index.toInt + max.toInt := by
  simp only [underflowCheckMin, branchAdd32, bind_eq_some] at h
  obtain ⟨t, hadd, h⟩ := h
  rw [SafeAdd_eq_some] at hadd
  split at h
  next => contradiction
  next hneg =>
    rw [Int32.lt_iff_toInt_lt, Int32.toInt_zero] at hneg
    split at h
    next diff hdiff =>
      cases h
      rw [SafeSub_eq_some] at hdiff
      omega
    next =>
      cases h
      have hsub : (t - min).toInt = t.toInt - min.toInt := by
        rw [Int32.toInt_sub]
        have := index.toInt_lt
        have := index.le_toInt
        apply Int.bmod_eq_of_le <;> omega
      omega

theorem underflowCheckMin_of_none (h : underflowCheckMin min max index = none)
    : index.toInt + min.toInt < 0 ∨ 2 ^ 31 ≤ index.toInt + min.toInt := by
  simp only [underflowCheckMin, branchAdd32] at h
  cases hadd : SafeAdd index min with
  | none =>
    have := SafeAdd_eq_none hadd
    omega
  | some t =>
    rw [hadd, some_bind] at h
    rw [SafeAdd_eq_some] at hadd
    split at h
    next hneg =>
      rw [Int32.lt_iff_toInt_lt, Int32.toInt_zero] at hneg
      omega
    next => split at h <;> contradiction

theorem underflowCheck_of_some {temp m : Int32} (h : underflowCheck min max index = some (temp, m))
    : (min = max ∨ 0 ≤ index.toInt + min.toInt) ∧ temp.toInt + m.toInt = index.toInt + max.toInt := by
  unfold underflowCheck at h
  split at h
  next heq =>
    cases h
    exact ⟨Or.inl heq, rfl⟩
  next =>
    split at h
    next hzero =>
      split at h
      next => contradiction
      next hneg =>
        cases h
        rw [Int32.lt_iff_toInt_lt, Int32.toInt_zero] at hneg
        subst hzero
        rw [Int32.toInt_zero]
        omega
    next =>
      obtain ⟨hlower, heq⟩ := underflowCheckMin_of_some h
      exact ⟨Or.inr hlower, heq⟩

theorem underflowCheck_of_none (h : underflowCheck min max index = none)
    : index.toInt + min.toInt < 0 ∨ 2 ^ 31 ≤ index.toInt + min.toInt := by
  unfold underflowCheck at h
  split at h
  next => contradiction
  next =>
    split at h
    next hzero =>
      split at h
      next hneg =>
        rw [Int32.lt_iff_toInt_lt, Int32.toInt_zero] at hneg
        subst hzero
        rw [Int32.toInt_zero]
        omega
      next => contradiction
    next => exact underflowCheckMin_of_none h

theorem visitBoundsCheckRangeRegister_iff (hrange : min.toInt ≤ max.toInt) (hlength : 0 ≤ length.toInt)
    : visitBoundsCheckRangeRegister min max index length = true
        ↔ 0 ≤ index.toInt + min.toInt ∧ index.toInt + max.toInt < length.toInt := by
  unfold visitBoundsCheckRangeRegister
  split
  next h =>
    have := underflowCheck_of_none h
    have := length.toInt_lt
    simp only [Bool.false_eq_true, false_iff]
    omega
  next temp m h =>
    obtain ⟨hlower, heq⟩ := underflowCheck_of_some h
    have hmax := @addMaximum_belowUnsigned_iff m length hlength temp
    rw [heq] at hmax
    have hiff : (0 ≤ index.toInt + max.toInt ∧ index.toInt + max.toInt < length.toInt)
        ↔ (0 ≤ index.toInt + min.toInt ∧ index.toInt + max.toInt < length.toInt) := by
      cases hlower with
      | inl h => rw [h]
      | inr h => omega
    rw [← hiff, ← hmax]
    split
    next h => simp only [h, reduceCtorEq, Bool.false_eq_true, false_and, exists_const]
    next t ht => simp only [ht, Option.some.injEq, exists_eq_left']

theorem visitBoundsCheckRange_iff {check : MBoundsCheck} (isConstant : Bool)
    (hrange : check.minimum.toInt ≤ check.maximum.toInt) (hlength : 0 ≤ length.toInt)
    : visitBoundsCheckRange check.minimum check.maximum index length isConstant = true
        ↔ check.passes index.toInt length.toInt := by
  unfold visitBoundsCheckRange MBoundsCheck.passes
  split
  next nmin nmax hmin hmax =>
    rw [SafeAdd_eq_some] at hmin hmax
    split
    next hfold =>
      rw [Bool.and_eq_true, decide_eq_true_iff, ge_iff_le, Int32.le_iff_toInt_le, Int32.toInt_zero] at hfold
      rw [belowUnsigned_iff hlength]
      omega
    next => exact visitBoundsCheckRangeRegister_iff hrange hlength
  next => exact visitBoundsCheckRangeRegister_iff hrange hlength

theorem visitBoundsCheckRange_iff_around
    : visitBoundsCheckRange (-1) 1 0 5 false = true
        ↔ (MBoundsCheck.mk (.leaf 0 .int32) (.leaf 1 .int32) (-1) 1 true true 0).passes 0 5 :=
  @visitBoundsCheckRange_iff 0 5 ⟨.leaf 0 .int32, .leaf 1 .int32, -1, 1, true, true, 0⟩ false (by decide) (by decide)

end MachineCode

namespace RedundantChecks

variable {address : MDefinition → Nat}

def passesFrom (other check : MBoundsCheck) (a length : Int) : Prop :=
  check.passes (a + (check.indexSum.constant.toInt - other.indexSum.constant.toInt)) length

variable {checkA checkB covering : MBoundsCheck}

theorem coverBoth_passes_iff {a length : Int}
    (h : coverBoth checkA.indexSum.constant checkB.indexSum.constant checkA checkB = some covering)
    : covering.passes a length ↔ checkA.passes a length ∧ passesFrom checkA checkB a length := by
  simp only [coverBoth, bind_eq_some, SafeAdd_eq_some, SafeSub_eq_some] at h
  obtain ⟨minimumA, hminA, maximumA, hmaxA, minimumB, hminB, maximumB, hmaxB, newMinimum, hmin,
    newMaximum, hmax, h⟩ := h
  cases h
  rw [toInt_min] at hmin
  rw [toInt_max] at hmax
  unfold passesFrom MBoundsCheck.passes
  dsimp only
  omega

theorem coverBoth_frame {constantA constantB : Int32}
    (h : coverBoth constantA constantB checkA checkB = some covering)
    : covering.index = checkA.index ∧ covering.length = checkA.length := by
  simp only [coverBoth, bind_eq_some] at h
  obtain ⟨_, _, _, _, _, _, _, _, _, _, _, _, h⟩ := h
  cases h
  exact ⟨rfl, rfl⟩

-- What holds of the checks after any number of eliminations that started with `s₀`.
structure Covers (s₀ s : RedundantChecks) : Prop where
  index : ∀ id, (s.boundsCheck id).index = (s₀.boundsCheck id).index
  length : ∀ id, (s.boundsCheck id).length = (s₀.boundsCheck id).length
  range : ∀ id, (s.boundsCheck id).minimum.toInt ≤ (s.boundsCheck id).maximum.toInt
  passes : ∀ id (a length : Int), (s.boundsCheck id).passes a length
    ↔ (s₀.boundsCheck id).passes a length
      ∧ ∀ check, (id, check) ∈ s.eliminated → passesFrom (s₀.boundsCheck id) check a length
  eliminated : ∀ id check, (id, check) ∈ s.eliminated →
    check.length = (s₀.boundsCheck id).length
      ∧ check.indexSum.term = (s₀.boundsCheck id).indexSum.term
      ∧ check.minimum.toInt ≤ check.maximum.toInt

variable {s : RedundantChecks}

theorem Covers.init (hempty : s.eliminated = [])
    (hrange : ∀ id, (s.boundsCheck id).minimum.toInt ≤ (s.boundsCheck id).maximum.toInt)
    : Covers s s := by
  constructor
  . exact fun _ => rfl
  . exact fun _ => rfl
  . exact hrange
  . simp only [hempty, List.not_mem_nil, false_implies, implies_true, and_true]
  . simp only [hempty, List.not_mem_nil, false_implies, implies_true]

variable {s₀ : RedundantChecks}

theorem Covers.indexSum (h : Covers s₀ s) (id : Nat)
    : (s.boundsCheck id).indexSum = (s₀.boundsCheck id).indexSum := by
  unfold MBoundsCheck.indexSum
  rw [h.index id]

variable {s' : RedundantChecks}

theorem Covers.of_eq (h : Covers s₀ s)
    (hcheck : s'.boundsCheck = s.boundsCheck) (heliminated : s'.eliminated = s.eliminated)
    : Covers s₀ s' := by
  constructor
  . simpa only [hcheck] using h.index
  . simpa only [hcheck] using h.length
  . simpa only [hcheck] using h.range
  . simpa only [hcheck, heliminated] using h.passes
  . simpa only [heliminated] using h.eliminated

theorem putCheck_frame {hash : Nat} {info : BoundsCheckInfo}
    {outOfMemory : Bool} (h : s.putCheck hash info outOfMemory = some s')
    : s'.boundsCheck = s.boundsCheck ∧ s'.eliminated = s.eliminated := by
  unfold putCheck at h
  split at h
  next => contradiction
  next =>
    cases h
    exact ⟨rfl, rfl⟩

theorem FindDominatingBoundsCheck_frame {visit : BoundsCheckVisit}
    {id : Nat} (h : FindDominatingBoundsCheck address s visit = some (s', id))
    : s'.boundsCheck = s.boundsCheck ∧ s'.eliminated = s.eliminated := by
  simp only [FindDominatingBoundsCheck] at h
  split at h
  next =>
    rw [Option.map_eq_some_iff] at h
    obtain ⟨t, ht, h⟩ := h
    cases h
    exact putCheck_frame ht
  next =>
    split at h
    next =>
      rw [Option.map_eq_some_iff] at h
      obtain ⟨t, ht, h⟩ := h
      cases h
      exact putCheck_frame ht
    next =>
      cases h
      exact ⟨rfl, rfl⟩

theorem coverBoth_range {constantA constantB : Int32}
    (h : coverBoth constantA constantB checkA checkB = some covering)
    (hrange : checkA.minimum.toInt ≤ checkA.maximum.toInt)
    : covering.minimum.toInt ≤ covering.maximum.toInt := by
  simp only [coverBoth, bind_eq_some, SafeAdd_eq_some, SafeSub_eq_some] at h
  obtain ⟨minimumA, hminA, maximumA, hmaxA, minimumB, hminB, maximumB, hmaxB, newMinimum, hmin,
    newMaximum, hmax, h⟩ := h
  cases h
  rw [toInt_min] at hmin
  rw [toInt_max] at hmax
  dsimp only
  omega

theorem Covers.merge (h : Covers s₀ s) {idA idB : Nat}
    (hlength : (s.boundsCheck idA).length = (s.boundsCheck idB).length)
    (hterm : (s.boundsCheck idA).indexSum.term = (s.boundsCheck idB).indexSum.term)
    (hcover : coverBoth (s.boundsCheck idA).indexSum.constant (s.boundsCheck idB).indexSum.constant
      (s.boundsCheck idA) (s.boundsCheck idB) = some covering)
    : Covers s₀ { s with
        boundsCheck := Function.update s.boundsCheck idA covering
        eliminated := s.eliminated ++ [(idA, s.boundsCheck idB)] } := by
  have hframe := coverBoth_frame hcover
  have hrange := coverBoth_range hcover (h.range idA)
  constructor
  . intro id
    dsimp only
    cases Decidable.em (id = idA) with
    | inl heq => rw [heq, update_self, hframe.1, h.index idA]
    | inr hne => rw [update_of_ne hne, h.index id]
  . intro id
    dsimp only
    cases Decidable.em (id = idA) with
    | inl heq => rw [heq, update_self, hframe.2, h.length idA]
    | inr hne => rw [update_of_ne hne, h.length id]
  . intro id
    dsimp only
    cases Decidable.em (id = idA) with
    | inl heq =>
      rw [heq, update_self]
      exact hrange
    | inr hne =>
      rw [update_of_ne hne]
      exact h.range id
  . intro id a length
    simp only [List.mem_append, List.mem_singleton, Prod.mk.injEq]
    cases Decidable.em (id = idA) with
    | inl heq =>
      subst heq
      rw [update_self, coverBoth_passes_iff hcover, h.passes id a length]
      unfold passesFrom
      rw [h.indexSum id]
      constructor
      . rintro ⟨⟨hA, hprev⟩, hB⟩
        refine ⟨hA, fun check hcheck => ?_⟩
        rcases hcheck with hcheck | ⟨_, rfl⟩
        . exact hprev check hcheck
        . exact hB
      . rintro ⟨hA, hall⟩
        exact ⟨⟨hA, fun check hcheck => hall check (Or.inl hcheck)⟩, hall _ (Or.inr ⟨rfl, rfl⟩)⟩
    | inr hne =>
      rw [update_of_ne hne, h.passes id a length]
      simp only [hne, false_and, or_false]
  . intro id check hmem
    simp only [List.mem_append, List.mem_singleton, Prod.mk.injEq] at hmem
    rcases hmem with hmem | ⟨rfl, rfl⟩
    . exact h.eliminated id check hmem
    refine ⟨?_, ?_, h.range idB⟩
    . rw [← hlength, h.length id]
    . rw [← hterm, h.indexSum id]

theorem Covers.mergeChecks {dominating dominated : Nat}
    (h : Covers s₀ s) (hstep : s.mergeChecks dominating dominated = some s')
    : Covers s₀ s' := by
  simp only [RedundantChecks.mergeChecks] at hstep
  split at hstep
  next =>
    cases hstep
    exact h
  next =>
    split at hstep
    next =>
      cases hstep
      exact h
    next hlength =>
      split at hstep
      next =>
        cases hstep
        exact h
      next hterm =>
        rw [Option.map_eq_some_iff] at hstep
        obtain ⟨covering, hcover, hstep⟩ := hstep
        cases hstep
        exact h.merge (not_not.mp hlength) (not_not.mp hterm) hcover

theorem Covers.step {s₀ s s' : RedundantChecks} {visit : BoundsCheckVisit} (h : Covers s₀ s)
    (hstep : TryEliminateBoundsCheck address s visit = some s')
    : Covers s₀ s' := by
  unfold TryEliminateBoundsCheck at hstep
  split at hstep
  next =>
    cases hstep
    exact h
  next =>
    split at hstep
    next =>
      cases hstep
      exact h
    next =>
      rw [bind_eq_some] at hstep
      obtain ⟨⟨t, dominating⟩, hfind, hmerge⟩ := hstep
      have hframe := FindDominatingBoundsCheck_frame hfind
      exact (h.of_eq hframe.1 hframe.2).mergeChecks hmerge

theorem eliminateBoundsChecks_covers {visits : List BoundsCheckVisit}
    (hrun : eliminateBoundsChecks address s visits = some s') (hempty : s.eliminated = [])
    (hrange : ∀ id, (s.boundsCheck id).minimum.toInt ≤ (s.boundsCheck id).maximum.toInt)
    : Covers s s' :=
  @Run.foldlM_inv _ _ _ (fun _ t => Covers s t) (fun _ _ _ _ h hstep => h.step hstep) visits [] s s'
    (Covers.init hempty hrange) hrun

theorem index_distance {env : Nat → Int32} {a b t : Int32}
    (hterm : checkB.indexSum.term = checkA.indexSum.term)
    (ha : checkA.index.eval env = some a) (hb : checkB.index.eval env = some b)
    (ht : checkA.indexSum.termEval env = some t)
    : a.toInt = t.toInt + checkA.indexSum.constant.toInt - 2 ^ 32 * wraps (t.toInt + checkA.indexSum.constant.toInt)
        ∧ b.toInt = t.toInt + checkB.indexSum.constant.toInt
          - 2 ^ 32 * wraps (t.toInt + checkB.indexSum.constant.toInt) := by
  obtain ⟨ta, hta⟩ := ExtractLinearSum_denotes ha
  obtain ⟨tb, htb⟩ := ExtractLinearSum_denotes hb
  have hA : ta = t := by
    have := hta.term
    rw [← MBoundsCheck.indexSum, ht] at this
    exact (Option.some.inj this).symm
  have hB : tb = t := by
    have := htb.term
    rw [← MBoundsCheck.indexSum, SimpleLinearSum.termEval_congr hterm, ht] at this
    exact (Option.some.inj this).symm
  subst hA
  subst hB
  constructor
  . rw [← toInt_add_eq]
    exact congrArg Int32.toInt hta.wrap
  . rw [← toInt_add_eq]
    exact congrArg Int32.toInt htb.wrap

theorem passes_iff_of_passesFrom {a b length : Int} {turns : Int}
    (hrange : checkB.minimum.toInt ≤ checkB.maximum.toInt) (hlength : length < 2 ^ 31)
    (hb : b = a + (checkB.indexSum.constant.toInt - checkA.indexSum.constant.toInt) + 2 ^ 32 * turns)
    (h : passesFrom checkA checkB a length)
    : checkB.passes b length ↔ turns = 0 := by
  unfold passesFrom MBoundsCheck.passes at h
  unfold MBoundsCheck.passes
  have := checkB.minimum.toInt_lt
  have := checkB.maximum.le_toInt
  have := checkB.minimum.le_toInt
  have := checkB.maximum.toInt_lt
  constructor
  . intro hpass
    omega
  intro hturns
  subst hturns
  omega

-- The updated check passes, and so does every check it covers, as long as no two of their indexes
-- wrap around differently.
theorem eliminated_passes_iff {s s' : RedundantChecks} {visits : List BoundsCheckVisit}
    (hrun : eliminateBoundsChecks address s visits = some s') (hempty : s.eliminated = [])
    (hrange : ∀ id, (s.boundsCheck id).minimum.toInt ≤ (s.boundsCheck id).maximum.toInt)
    {dominating : Nat} {checkB : MBoundsCheck} (hmem : (dominating, checkB) ∈ s'.eliminated)
    {env : Nat → Int32} {a b t : Int32} (ha : (s.boundsCheck dominating).index.eval env = some a)
    (hb : checkB.index.eval env = some b)
    (ht : (s.boundsCheck dominating).indexSum.termEval env = some t) (length : Int32)
    : ((s'.boundsCheck dominating).passes a.toInt length.toInt → checkB.passes b.toInt length.toInt)
        ↔ ((s.boundsCheck dominating).passes a.toInt length.toInt ∧ (∀ check, (dominating, check) ∈ s'.eliminated
              → passesFrom (s.boundsCheck dominating) check a.toInt length.toInt)
          → wraps (t.toInt + (s.boundsCheck dominating).indexSum.constant.toInt)
            = wraps (t.toInt + checkB.indexSum.constant.toInt)) := by
  have hcovers := eliminateBoundsChecks_covers hrun hempty hrange
  obtain ⟨_, hterm, hrangeB⟩ := hcovers.eliminated dominating checkB hmem
  have hvalues := index_distance hterm ha hb ht
  rw [← hcovers.passes]
  apply forall_congr'
  intro hpass
  have hfrom := ((hcovers.passes dominating a.toInt length.toInt).mp hpass).2 checkB hmem
  have hdistance : b.toInt = a.toInt + (checkB.indexSum.constant.toInt
      - (s.boundsCheck dominating).indexSum.constant.toInt)
      + 2 ^ 32 * (wraps (t.toInt + (s.boundsCheck dominating).indexSum.constant.toInt)
        - wraps (t.toInt + checkB.indexSum.constant.toInt)) := by
    omega
  rw [passes_iff_of_passesFrom hrangeB length.toInt_lt hdistance hfrom]
  omega

def truncatedDominating : RedundantChecks where
  boundsCheck id :=
    if id = 0 then
      { index := .sub 3 .int32 .truncate (.leaf 1 .int32) (.constant 2 5)
        length := .leaf 4 .int32
        minimum := 0
        maximum := 0
        fallible := true
        isMovable := true
        numDominated := 1 }
    else
      { index := .leaf 1 .int32
        length := .leaf 4 .int32
        minimum := -7
        maximum := -7
        fallible := true
        isMovable := true
        numDominated := 1 }
  checks _ := none
  eliminated := []

theorem truncatedDominating_range (id : Nat)
    : (truncatedDominating.boundsCheck id).minimum.toInt ≤ (truncatedDominating.boundsCheck id).maximum.toInt := by
  unfold truncatedDominating
  dsimp only
  split <;> decide

theorem eliminated_passes_iff_truncatedDominating
    : ∃ s, eliminateBoundsChecks (fun _ => 0) truncatedDominating [⟨0, 0, false⟩, ⟨0, 1, false⟩] = some s
        ∧ (((s.boundsCheck 0).passes (Int32.toInt 15) (Int32.toInt 30)
            → (truncatedDominating.boundsCheck 1).passes (Int32.toInt 20) (Int32.toInt 30))
          ↔ ((truncatedDominating.boundsCheck 0).passes (Int32.toInt 15) (Int32.toInt 30)
              ∧ (∀ check, (0, check) ∈ s.eliminated
                → passesFrom (truncatedDominating.boundsCheck 0) check (Int32.toInt 15) (Int32.toInt 30))
            → wraps (Int32.toInt 20 + (truncatedDominating.boundsCheck 0).indexSum.constant.toInt)
              = wraps (Int32.toInt 20 + (truncatedDominating.boundsCheck 1).indexSum.constant.toInt))) := by
  have hrun : (eliminateBoundsChecks (fun _ => 0) truncatedDominating
      [⟨0, 0, false⟩, ⟨0, 1, false⟩]).isSome = true := by
    decide
  obtain ⟨s, hs⟩ := Option.isSome_iff_exists.mp hrun
  have hmem : (0, truncatedDominating.boundsCheck 1) ∈ s.eliminated := by
    have h : (0, truncatedDominating.boundsCheck 1) ∈ ((eliminateBoundsChecks (fun _ => 0)
        truncatedDominating [⟨0, 0, false⟩, ⟨0, 1, false⟩]).get (by decide)).eliminated := by
      decide
    rw [Option.get_of_eq_some _ hs] at h
    exact h
  have ha : (truncatedDominating.boundsCheck 0).index.eval (fun _ => 20) = some 15 := by decide
  have hb : (truncatedDominating.boundsCheck 1).index.eval (fun _ => 20) = some 20 := by decide
  have ht : (truncatedDominating.boundsCheck 0).indexSum.termEval (fun _ => 20) = some 20 := by
    decide
  exact ⟨s, hs, eliminated_passes_iff hs rfl truncatedDominating_range hmem ha hb ht 30⟩

theorem eliminated_check_fails
    : ∃ s, eliminateBoundsChecks (fun _ => 0) truncatedDominating [⟨0, 0, false⟩, ⟨0, 1, false⟩] = some s
        ∧ (0, truncatedDominating.boundsCheck 1) ∈ s.eliminated
        ∧ (s.boundsCheck 0).index.eval (fun _ => -2147483648) = some 2147483643
        ∧ (s.boundsCheck 0).passes 2147483643 2147483647
        ∧ (truncatedDominating.boundsCheck 1).index.eval (fun _ => -2147483648) = some (-2147483648)
        ∧ ¬ (truncatedDominating.boundsCheck 1).passes (-2147483648) 2147483647 := by
  refine ⟨_, rfl, ?_, ?_, ?_, ?_, ?_⟩
  . decide
  . decide
  . decide
  . decide
  . decide

end RedundantChecks

end SpiderMonkey
